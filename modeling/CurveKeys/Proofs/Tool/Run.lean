import CurveKeys.Proofs.Tool.Command
import CurveKeys.Proofs.Tool.Setup
import CurveKeys.Tool.Run

/-!
# Tool — how runs end

A run that gets as far as a command ends as the command does; any other ends before it, with
nothing printed or with one of the fixed texts.

* `Asks`: the arguments ask for a command.
* `Ended`: the ways in which a run can end, and `run_ended`: it ends in one of them.
* `run_exit`: what the exit status says.
-/

namespace CurveKeys.Tool

variable {σ : Type} {w : Surroundings σ} {arguments rest : List Bytes} {s : Settings} {c : Command}

/-! ### Asking for a command -/

/-- The options in force are the given settings. -/
def Accepted (w : Surroundings σ) (arguments : List Bytes) (s : Settings) : Prop :=
  ∃ opened, setUp w.contentOf w.canAppend arguments = .ok (s, opened)

/-- The options are accepted, neither the version nor help is asked for, and the first positional
argument names a command, which the rest are left to. -/
structure Asks (w : Surroundings σ) (arguments : List Bytes) (s : Settings) (c : Command)
    (rest : List Bytes) : Prop where
  accepted : Accepted w arguments s
  not_version : s.switch "version" false = false
  not_help : s.switch "help" false = false
  command : ∃ name, s.positional = name :: rest ∧ Command.ofName? name = some c

/-- What the command gives that is asked for. -/
def given (w : Surroundings σ) (s : Settings) (c : Command) (rest : List Bytes) :
    Except Failure Bytes :=
  (c.run rest (!s.switch "uncompressed" false) s.policy w.entropy w.supply).result

theorem Accepted.unique {s' : Settings} (h : Accepted w arguments s)
    (h' : Accepted w arguments s') : s = s' := by
  obtain ⟨_, h⟩ := h
  obtain ⟨_, h'⟩ := h'
  cases h.symm.trans h'
  rfl

/-- A plain invocation asks for the command that its first positional argument names. -/
theorem Invocation.asks {name : Bytes} {flags : Flag → Bool}
    (h : Invocation (name :: rest) flags arguments) (hp : ∀ a ∈ name :: rest, a.Plain)
    (hc : Command.ofName? name = some c) (w : Surroundings σ) :
    ∃ s, Asks w arguments s c rest ∧ s.switch "uncompressed" false = flags .uncompressed ∧
      s.policy = ⟨flags .strict⟩ := by
  obtain ⟨s, opened, hs, hpos, hv, hh, hu, hpol⟩ := h.setUp_eq hp w.contentOf w.canAppend
  exact ⟨s, ⟨⟨opened, hs⟩, hv, hh, name, hpos, hc⟩, hu, hpol⟩

/-! ### The ways in which a run ends -/

/-- How a run can end: its exit, and what it prints. -/
inductive Ended (w : Surroundings σ) (arguments : List Bytes) : Exit → Bytes → Prop where
  | rejected {e : SetupError} : setUp w.contentOf w.canAppend arguments = .error e →
      Ended w arguments .usage []
  | version {s : Settings} : Accepted w arguments s → s.switch "version" false = true →
      Ended w arguments .success versionText
  | help {s : Settings} : Accepted w arguments s → s.switch "help" false = true →
      Ended w arguments .success usageText
  | nothing {s : Settings} : Accepted w arguments s → s.positional = [] →
      Ended w arguments .usage usageText
  | unknown {s : Settings} {name : Bytes} {rest : List Bytes} : Accepted w arguments s →
      s.positional = name :: rest → Command.ofName? name = none → Ended w arguments .usage []
  | printed {s : Settings} {c : Command} {rest : List Bytes} {text : Bytes} :
      Asks w arguments s c rest → given w s c rest = .ok text → Ended w arguments .success text
  | failed {s : Settings} {c : Command} {rest : List Bytes} {e : Failure} :
      Asks w arguments s c rest → given w s c rest = .error e → Ended w arguments e.exit []

theorem run_eq {opened : Logger × List Note}
    (h : setUp w.contentOf w.canAppend arguments = .ok (s, opened)) :
    (run arguments w).exit = (runSettings s w.entropy w.supply).exit ∧
      (run arguments w).stdout = (runSettings s w.entropy w.supply).stdout := by
  rw [run, h]
  exact ⟨rfl, rfl⟩

/-- Settings that ask for neither the version nor help go on to the positional arguments. -/
theorem runSettings_eq {source : Entropy.Source σ} {supply : σ}
    (hv : s.switch "version" false = false) (hh : s.switch "help" false = false) :
    runSettings s source supply =
      match s.positional with
      | []           => ⟨.usage, usageText, [], []⟩
      | name :: rest => runCommand s name rest source supply :=
  (if_neg (ne_true_of_eq_false hv)).trans (if_neg (ne_true_of_eq_false hh))

/-- **A run that asks for a command** prints what the command gives. -/
theorem Asks.run_ok {text : Bytes} (h : Asks w arguments s c rest)
    (hg : given w s c rest = .ok text) :
    (run arguments w).exit = .success ∧ (run arguments w).stdout = text := by
  obtain ⟨⟨opened, hs⟩, hv, hh, name, hp, hc⟩ := h
  obtain ⟨he, ho⟩ := Tool.run_eq hs
  rw [given] at hg
  rw [he, ho, runSettings_eq hv hh, hp]
  simp only [runCommand, hc, hg, and_self]

/-- Where the command fails, the run prints nothing. -/
theorem Asks.run_error {e : Failure} (h : Asks w arguments s c rest)
    (hg : given w s c rest = .error e) :
    (run arguments w).exit = e.exit ∧ (run arguments w).stdout = [] := by
  obtain ⟨⟨opened, hs⟩, hv, hh, name, hp, hc⟩ := h
  obtain ⟨he, ho⟩ := Tool.run_eq hs
  rw [given] at hg
  rw [he, ho, runSettings_eq hv hh, hp]
  simp only [runCommand, hc, hg, and_self]

/-- **Every run** ends in one of these ways. -/
theorem run_ended (w : Surroundings σ) (arguments : List Bytes) :
    Ended w arguments (run arguments w).exit (run arguments w).stdout := by
  rcases hs : setUp w.contentOf w.canAppend arguments with e | ⟨s, opened⟩
  · rw [run, hs]
    exact .rejected hs
  have ha : Accepted w arguments s := ⟨opened, hs⟩
  obtain ⟨he, ho⟩ := Tool.run_eq hs
  by_cases hv : s.switch "version" false = true
  · rw [he, ho, runSettings, if_pos hv]
    exact .version ha hv
  by_cases hh : s.switch "help" false = true
  · rw [he, ho, runSettings, if_neg hv, if_pos hh]
    exact .help ha hh
  have hv := Bool.eq_false_of_not_eq_true hv
  have hh := Bool.eq_false_of_not_eq_true hh
  rcases hp : s.positional with _ | ⟨name, rest⟩
  · rw [he, ho, runSettings_eq hv hh, hp]
    exact .nothing ha hp
  rcases hc : Command.ofName? name with _ | c
  · rw [he, ho, runSettings_eq hv hh, hp]
    simp only [runCommand, hc]
    exact .unknown ha hp hc
  have hasks : Asks w arguments s c rest := ⟨ha, hv, hh, name, hp, hc⟩
  rcases hg : given w s c rest with e | text
  · obtain ⟨he, ho⟩ := hasks.run_error hg
    rw [he, ho]
    exact .failed hasks hg
  · obtain ⟨he, ho⟩ := hasks.run_ok hg
    rw [he, ho]
    exact .printed hasks hg

/-! ### Why a command fails -/

/-- The keys reject the octets of the argument, which is valid; it is not that the arithmetic failed
at them. -/
inductive Rejects (s : Settings) (c : Command) : List Bytes → KeyError → Prop where
  | mk {h : Bytes} {rest : List Bytes} {kind : ArgumentKind} {answer : Bytes → Except KeyError Bytes}
      {b : Bytes} {cause : KeyError} :
      c.answer? (!s.switch "uncompressed" false) s.policy = some (kind, answer) →
      Hex.isValid h = true → Hex.decode h = .ok b → answer b = .error cause →
      (∀ failure, cause ≠ .failed failure) → Rejects s c (h :: rest) cause

/-- Why a command can fail: its argument is missing or not valid, the keys reject it, the arithmetic
fails at it, or there is nothing to generate a pair from. -/
inductive Failed (w : Surroundings σ) (s : Settings) (rest : List Bytes) :
    Command → Failure → Prop where
  | missing {c : Command} {kind : ArgumentKind} : rest = [] → Failed w s rest c (.missing kind)
  | notHex {c : Command} {kind : ArgumentKind} {argument : Bytes} {others : List Bytes} :
      rest = argument :: others → Hex.isValid argument = false →
      Failed w s rest c (.notHex kind argument)
  | rejected {c : Command} {cause : KeyError} : Rejects s c rest cause →
      Failed w s rest c (.key cause)
  | tooWide {c : Command} {failure : QueuedFailure} : Command.TooWide c rest →
      Failed w s rest c (.internal failure.message)
  | noEntropy : KeyPair.Starved w.entropy w.supply →
      Failed w s rest .generate (.internal Entropy.Error.unavailable.message)
  | exhausted : KeyPair.Starved w.entropy w.supply →
      Failed w s rest .generate (.internal GenerateError.exhausted.message)

theorem failed_of_answer? {kind : ArgumentKind} {answer : Bytes → Except KeyError Bytes}
    {e : Failure} (hc : c.answer? (!s.switch "uncompressed" false) s.policy = some (kind, answer))
    (h : given w s c rest = .error e) : Failed w s rest c e := by
  rw [given, Command.result_run hc] at h
  rcases ha : hexArgument kind rest with e' | b
  · rw [ha] at h
    cases h
    obtain ⟨hr, rfl⟩ | ⟨argument, others, hr, hv, rfl⟩ := hexArgument_eq_error_iff.mp ha
    · exact .missing hr
    · exact .notHex hr hv
  · obtain ⟨argument, rest, rfl, hd, hb⟩ := hexArgument_eq_ok_iff.mp ha
    rw [ha] at h
    change (answer b).mapError ofKeyError = _ at h
    rcases hk : answer b with cause | text
    · rw [hk] at h
      by_cases hf : ∃ failure, cause = .failed failure
      · obtain ⟨failure, rfl⟩ := hf
        cases h
        obtain ⟨hc, hwide⟩ := Command.wide_of_answer_failed hc hk
        exact .tooWide (.mk hc hd hwide)
      · have hn : ∀ failure, cause ≠ .failed failure := not_exists.mp hf
        change Except.error (ofKeyError cause) = _ at h
        rw [ofKeyError_eq hn] at h
        cases h
        exact .rejected (.mk hc (Hex.isValid_iff.mpr ⟨b, hb, hd⟩) hd hk hn)
    · rw [hk] at h
      cases h

/-- Without a pair, generating fails as the draws did. -/
theorem given_generate {e : GenerateError}
    (h : (KeyPair.generate w.entropy w.supply).1.result = .error e) :
    given w s .generate rest = .error (ofGenerateError e) := by
  rw [given, Command.run, Traced.result_bind, Traced.mapError, h]
  rfl

/-- A generated pair is printed in the form that was asked for, with its record. -/
theorem given_generated {g : KeyPair} (s : Settings) (rest : List Bytes)
    (h : (KeyPair.generate w.entropy w.supply).1.result = .ok g) :
    ∃ k, given w s .generate rest = .ok (pairText k ++ row "record:     " (Hex.encode k.toRecord)) ∧
      k.Matched ∧ k.privateKey.scalar = g.privateKey.scalar := by
  obtain ⟨g', k, hg', hr, hm, hk, -⟩ | ⟨e, he, -⟩ := Command.result_run_generate rest
    (!s.switch "uncompressed" false) s.policy w.entropy w.supply
  · cases h.symm.trans hg'
    exact ⟨k, hr, hm, hk⟩
  · cases h.symm.trans he

/-- What is printed by generating comes from a generated pair. -/
theorem exists_generated {text : Bytes} (h : given w s .generate rest = .ok text) :
    ∃ g, (KeyPair.generate w.entropy w.supply).1.result = .ok g := by
  rcases hg : (KeyPair.generate w.entropy w.supply).1.result with e | g
  · cases h.symm.trans (given_generate hg)
  · exact ⟨g, rfl⟩

/-- **A command fails** for one of these reasons. -/
theorem failed_of_given {e : Failure} (h : given w s c rest = .error e) :
    Failed w s rest c e := by
  cases c with
  | derive | exportRecord | importRecord | hash160 | compress | decompress =>
      exact failed_of_answer? rfl h
  | help => cases h
  | generate =>
      rcases he : (KeyPair.generate w.entropy w.supply).1.result with e' | g
      swap
      · obtain ⟨k, hg, -⟩ := given_generated s rest he
        cases h.symm.trans hg
      cases h.symm.trans (given_generate he)
      have hs := KeyPair.generate_starved_iff.mp ⟨e', he⟩
      cases e' with
      | noEntropy cause =>
          cases cause
          exact .noEntropy hs
      | exhausted => exact .exhausted hs
      | refused cause => exact absurd he (KeyPair.generate_ne_refused cause)

theorem Rejects.given {cause : KeyError} (h : Rejects s c rest cause) (w : Surroundings σ) :
    given w s c rest = .error (.key cause) := by
  obtain ⟨hc, hv, hd, hk, hn⟩ := h
  obtain ⟨b', hb, hd'⟩ := Hex.isValid_iff.mp hv
  cases hd.symm.trans hd'
  rw [Tool.given, Command.result_run hc, hexArgument_eq_ok_iff.mpr ⟨_, _, rfl, hd, hb⟩]
  exact (congrArg (Except.mapError ofKeyError) hk).trans (congrArg Except.error (ofKeyError_eq hn))

/-! ### Exit statuses -/

/-- A run that fails where the arguments are not to blame fails in its command. -/
theorem failed_of_exit (h : (run arguments w).exit = .keyError ∨ (run arguments w).exit = .internal) :
    ∃ s c rest e, Asks w arguments s c rest ∧ Failed w s rest c e ∧
      (run arguments w).exit = e.exit ∧ (run arguments w).stdout = [] := by
  have hr := run_ended w arguments
  generalize (run arguments w).exit = x, (run arguments w).stdout = text at h hr
  cases hr with
  | rejected | version | help | nothing | unknown | printed => exact absurd h (by decide)
  | failed ha hg => exact ⟨_, _, _, _, ha, failed_of_given hg, rfl, rfl⟩

/-- **The keys are to blame** where they reject octets that were read, and only there. -/
theorem exit_keyError_iff :
    (run arguments w).exit = .keyError ↔
      ∃ s c rest cause, Asks w arguments s c rest ∧ Rejects s c rest cause := by
  refine ⟨fun h => ?_, ?_⟩
  · obtain ⟨s, c, rest, e, ha, hf, he, -⟩ := failed_of_exit (.inl h)
    rw [h] at he
    cases hf with
    | missing | notHex | tooWide | noEntropy | exhausted => cases he
    | rejected hr => exact ⟨s, c, rest, _, ha, hr⟩
  · rintro ⟨s, c, rest, cause, ha, hr⟩
    exact (ha.run_error (hr.given w)).1

/-- **The program is to blame** where there is nothing to generate from and where the arithmetic
fails, and only there. -/
theorem exit_internal_iff :
    (run arguments w).exit = .internal ↔
      (∃ s rest, Asks w arguments s .generate rest ∧ KeyPair.Starved w.entropy w.supply) ∨
        ∃ s c rest, Asks w arguments s c rest ∧ Command.TooWide c rest := by
  refine ⟨fun h => ?_, ?_⟩
  · obtain ⟨s, c, rest, e, ha, hf, he, -⟩ := failed_of_exit (.inr h)
    rw [h] at he
    cases hf with
    | missing | notHex | rejected => cases he
    | noEntropy hs | exhausted hs => exact .inl ⟨s, rest, ha, hs⟩
    | tooWide hwide => exact .inr ⟨s, c, rest, ha, hwide⟩
  · rintro (⟨s, rest, ha, hs⟩ | ⟨s, c, rest, ha, hwide⟩)
    swap
    · obtain ⟨failure, hf⟩ := hwide.result_run
      exact (ha.run_error hf).1
    obtain ⟨e, he⟩ := KeyPair.generate_starved_iff.mpr hs
    rw [(ha.run_error (given_generate he)).1]
    cases e with
    | noEntropy | exhausted => rfl
    | refused cause => exact absurd he (KeyPair.generate_ne_refused cause)

theorem status_injective : Function.Injective Exit.status := by
  intro x y h
  cases x <;> cases y <;> first | rfl | cases h

/-- **Exit statuses.**  There are four.  3 is for generating where no draw gives a key, unless it is
the arithmetic that fails, at a private key of too many octets; 2 for a command whose argument is
valid and whose octets the keys reject; the check of an argument and its reading always agree, and
the only internal faults are those of the draws and of the arithmetic.  With 2 and 3 nothing is
printed, with 1 nothing or the usage text. -/
theorem run_exit (w : Surroundings σ) (arguments : List Bytes) :
    (run arguments w).exit.status ≤ 3 ∧
    ((run arguments w).exit.status = 3 ↔
      (∃ s rest, Asks w arguments s .generate rest ∧ KeyPair.Starved w.entropy w.supply) ∨
        ∃ s c rest, Asks w arguments s c rest ∧ Command.TooWide c rest) ∧
    ((run arguments w).exit.status = 2 ↔
      ∃ s c rest cause, Asks w arguments s c rest ∧ Rejects s c rest cause) ∧
    (∀ kind rest message, hexArgument kind rest ≠ .error (.internal message)) ∧
    (∀ s c rest message, given w s c rest = .error (.internal message) →
      (c = .generate ∧ (message = Entropy.Error.unavailable.message ∨
        message = GenerateError.exhausted.message)) ∨ Command.TooWide c rest) ∧
    ((run arguments w).exit.status = 2 ∨ (run arguments w).exit.status = 3 →
      (run arguments w).stdout = []) ∧
    ((run arguments w).exit.status = 1 →
      (run arguments w).stdout = [] ∨ (run arguments w).stdout = usageText) := by
  have status_eq : ∀ x : Exit, (run arguments w).exit.status = x.status ↔
      (run arguments w).exit = x := fun _ => status_injective.eq_iff
  refine ⟨?_, (status_eq .internal).trans exit_internal_iff,
    (status_eq .keyError).trans exit_keyError_iff, ?_, ?_, ?_, ?_⟩
  · cases (run arguments w).exit <;> decide
  · intro kind rest message h
    obtain ⟨-, h⟩ | ⟨_, _, -, -, h⟩ := hexArgument_eq_error_iff.mp h <;> cases h
  · intro s c rest message h
    have hf := failed_of_given h
    cases hf with
    | noEntropy => exact .inl ⟨rfl, .inl rfl⟩
    | exhausted => exact .inl ⟨rfl, .inr rfl⟩
    | tooWide hwide => exact .inr hwide
  · intro h
    obtain ⟨_, _, _, _, -, -, -, ho⟩ := failed_of_exit
      (h.imp (status_eq .keyError).mp (status_eq .internal).mp)
    exact ho
  · intro h
    have h := (status_eq .usage).mp h
    have hr := run_ended w arguments
    generalize (run arguments w).exit = x, (run arguments w).stdout = text at h hr
    cases hr with
    | rejected | unknown | failed => exact .inl rfl
    | nothing => exact .inr rfl
    | version | help | printed => cases h

/-! ### Small surroundings -/

/-- No files and no terminal; the system answers as given. -/
def alone (replies : List Entropy.Reply) : Surroundings Entropy.Feed where
  contentOf := fun _ => none
  canAppend := fun _ => false
  terminal := false
  entropy := Entropy.system
  supply := ⟨replies, 0⟩
  time := 0

/-- The system answers with one draw, of a number below 256. -/
def drawing (n : UInt8) : Surroundings Entropy.Feed :=
  alone [.delivered (List.replicate 31 0 ++ [n])]

/-- The pair of the one draw. -/
theorem generate_drawing {n : UInt8} (h : n ≠ 0) :
    ∃ g, (KeyPair.generate (drawing n).entropy (drawing n).supply).1.result = .ok g ∧
      g.privateKey.scalar.value = n.toNat := by
  have hv : BigEndian.value (List.replicate 31 0 ++ [n]) = n.toNat := by
    rw [BigEndian.value_append_singleton, BigEndian.value_replicate_zero, Nat.zero_mul, Nat.zero_add]
  have hr : KeyPair.InRange (List.replicate 31 0 ++ [n]) := by
    rw [KeyPair.InRange, hv]
    refine ⟨fun e => h (UInt8.toNat_inj.mp e), ?_⟩
    exact lt_of_lt_of_le n.toNat_lt (by decide)
  have hd : (drawing n).entropy.nthDraw PrivateKey.size 0 (drawing n).supply =
      .ok (List.replicate 31 0 ++ [n]) := rfl
  obtain ⟨g, hg, -, hgv, -⟩ := KeyPair.generate_accepted (n := 0) (by decide) nofun hd hr
  exact ⟨g, hg, hgv.trans hv⟩

theorem rejects_zero (s : Settings) :
    Rejects s .derive [Bytes.ascii "00"] (.invalidKey .scalarZero) := by
  refine .mk rfl (b := [0]) (by decide) (by decide) ?_ (fun _ h => by cases h)
  have hz : s.policy.refusal? (BigEndian.value [0] % Curve.order) = some .scalarZero := rfl
  rw [KeyPair.ofBytes_refused (by decide) hz]
  rfl

/-- Nothing to generate from, and the scalar 0. -/
theorem run_exit_alone :
    (run [Bytes.ascii "generate"] (alone [])).exit.status = 3 ∧
      (run [Bytes.ascii "generate"] (alone [])).stdout = [] ∧
      (run [Bytes.ascii "derive", Bytes.ascii "00"] (alone [])).exit.status = 2 ∧
      (run [Bytes.ascii "derive", Bytes.ascii "00"] (alone [])).stdout = [] := by
  have hs : KeyPair.Starved (alone []).entropy (alone []).supply :=
    .inr ⟨0, by decide, nofun, .unavailable, rfl⟩
  have ig : Invocation [Bytes.ascii "generate"] (fun _ => false) [Bytes.ascii "generate"] :=
    .bare (by decide)
  have iz : Invocation [Bytes.ascii "derive", Bytes.ascii "00"] (fun _ => false)
      [Bytes.ascii "derive", Bytes.ascii "00"] := .bare (by decide)
  obtain ⟨s, hg, -, -⟩ := ig.asks (by decide) (c := .generate) (by decide) (alone [])
  obtain ⟨s', hd, -, -⟩ := iz.asks (by decide) (c := .derive) (by decide) (alone [])
  obtain ⟨-, h₃, -, -, -, ho, -⟩ := run_exit (alone []) [Bytes.ascii "generate"]
  obtain ⟨-, -, h₂, -, -, ho', -⟩ := run_exit (alone []) [Bytes.ascii "derive", Bytes.ascii "00"]
  have e₃ := h₃.mpr (.inl ⟨s, [], hg, hs⟩)
  have e₂ := h₂.mpr ⟨s', .derive, _, _, hd, rejects_zero s'⟩
  exact ⟨e₃, ho (.inr e₃), e₂, ho' (.inl e₂)⟩

end CurveKeys.Tool
