import CurveKeys.Journal.Shared
import CurveKeys.Main
import CurveKeys.Proofs.Bytes.Codec
import CurveKeys.Proofs.Digest.Hasher
import CurveKeys.Proofs.Entropy
import CurveKeys.Proofs.Framing
import CurveKeys.Proofs.Journal.Debugging
import CurveKeys.Proofs.Journal.Delivery
import CurveKeys.Proofs.Journal.Timestamp
import CurveKeys.Proofs.Journal.Whole
import CurveKeys.Proofs.Keys.Delimited
import CurveKeys.Proofs.Keys.Imported
import CurveKeys.Proofs.Keys.Layout
import CurveKeys.Proofs.Keys.Opposite
import CurveKeys.Proofs.Keys.Reported
import CurveKeys.Proofs.Keys.Restriction
import CurveKeys.Proofs.Keys.Sampling
import CurveKeys.Proofs.Keys.Session
import CurveKeys.Proofs.Keys.Supply
import CurveKeys.Proofs.Numeral
import CurveKeys.Proofs.Settings.Alike
import CurveKeys.Proofs.Settings.Dump
import CurveKeys.Proofs.Settings.Integers
import CurveKeys.Proofs.Settings.Quoting
import CurveKeys.Proofs.Tool.Agreement
import CurveKeys.Proofs.Tool.Precedence
import CurveKeys.Proofs.Tool.Strict
