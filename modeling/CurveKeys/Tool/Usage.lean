import CurveKeys.Bytes.Text

/-!
# Tool — fixed texts
-/

namespace CurveKeys.Tool

/-- Lines, each ended by a newline. -/
def ofLines (ls : List String) : Bytes := ls.flatMap fun l => Bytes.ascii l ++ [Text.newline]

def title : String := "COINKEY Key Tool v0.1.0"

/-- What `--version` prints. -/
def versionText : Bytes :=
  ofLines [title, "Copyright (c) 2024 COINKEY Developers", "MIT License"]

/-- What `help` prints. -/
def usageText : Bytes :=
  ofLines
    [title,
     "",
     "Usage: coinkey-tool <command> [options] [arguments]",
     "",
     "Commands:",
     "  generate              Generate a new key pair",
     "  derive <privhex>      Derive the key pair of a private scalar",
     "  export <privhex>      Print the DER EC private key record",
     "  import <derhex>       Validate a DER record and print its keys",
     "  hash160 <pubhex>      Print RIPEMD160(SHA256(pubkey))",
     "  compress <pubhex>     Re-encode a public key in compressed form",
     "  decompress <pubhex>   Re-encode a public key in uncompressed form",
     "  help                  Show this help message",
     "",
     "Options:",
     "  --uncompressed        Use the 65-byte public key form",
     "  --strict              Reject the private scalar 1",
     "  --conf=<file>         Read options from an INI-style file",
     "  --loglevel=<level>    trace, debug, info, warn, error, fatal, off",
     "  --debug=<cat>[,<cat>] Debug output for curve, keys, asn1, tool (or all)",
     "  --logfile=<file>      Also write the log to a file",
     "  --noprinttoconsole    Do not log to stderr",
     "  --version             Show version",
     "",
     "Exit status: 0 success, 1 usage error, 2 key error, 3 internal error"]

end CurveKeys.Tool
