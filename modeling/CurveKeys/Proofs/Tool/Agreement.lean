import CurveKeys.Proofs.Tool.Lines
import CurveKeys.Proofs.Tool.Run

/-!
# Tool — what is exported is imported

Deriving, exporting and importing read their arguments each on their own, and meet in the record of
a pair: what is exported for an argument is imported as what is derived from it.

* `AlwaysPrints.of_answer`, `exists_answer`: a command prints what the keys answer to its argument,
  in whatever surroundings.
* `alwaysPrints_import`: the record of a pair is imported as the pair.
* `import_exported`: exporting, generating and importing agree.
-/

namespace CurveKeys

/-- An argument that passes the check for digits is no option. -/
theorem Hex.plain_of_isValid {h : Bytes} (hv : isValid h = true) : h.Plain :=
  ⟨fun h₀ => absurd (value?_of_isValid hv h₀) (by decide),
    fun hd => absurd (value?_of_isValid hv (List.mem_of_head? hd)) (by decide)⟩

namespace Tool

/-- A run succeeds and prints the text. -/
def Prints {σ : Type} (w : Surroundings σ) (arguments : List Bytes) (text : Bytes) : Prop :=
  (run arguments w).exit = .success ∧ (run arguments w).stdout = text

/-- Every plain invocation with the given positional arguments and flags succeeds and prints the
text, in whatever surroundings. -/
def AlwaysPrints (positional : List Bytes) (flags : Flag → Bool) (text : Bytes) : Prop :=
  ∀ (σ : Type) (w : Surroundings σ) (arguments : List Bytes),
    Invocation positional flags arguments → Prints w arguments text

variable {σ : Type} {w : Surroundings σ} {arguments rest : List Bytes} {s : Settings} {c : Command}
  {flags : Flag → Bool} {kind : ArgumentKind} {answer : Bytes → Except KeyError Bytes}
  {name h b text : Bytes} {k : KeyPair}

/-- A command that succeeds prints what it gives. -/
theorem Prints.given (hp : Prints w arguments text) (ha : Asks w arguments s c rest) :
    given w s c rest = .ok text := by
  obtain ⟨he, ho⟩ := hp
  rcases hg : Tool.given w s c rest with e | text'
  · rw [(ha.run_error hg).1] at he
    cases e <;> cases he
  · rw [(ha.run_ok hg).2] at ho
    rw [ho]

/-! ### Commands that take an argument -/

theorem AlwaysPrints.of_answer (hn : Command.ofName? name = some c) (hp : name.Plain)
    (hv : Hex.isValid h = true)
    (hc : c.answer? (!flags .uncompressed) ⟨flags .strict⟩ = some (kind, answer))
    (hb : hexArgument kind [h] = .ok b) (ha : answer b = .ok text) :
    AlwaysPrints [name, h] flags text := by
  intro σ w arguments hi
  have hplain : ∀ a ∈ [name, h], a.Plain :=
    List.forall_mem_cons.mpr ⟨hp, List.forall_mem_singleton.mpr (Hex.plain_of_isValid hv)⟩
  obtain ⟨s, hasks, hu, hpol⟩ := hi.asks hplain hn w
  rw [← hu, ← hpol] at hc
  exact hasks.run_ok ((Command.result_run_eq_ok_iff hc).mpr ⟨b, hb, ha⟩)

theorem exists_answer (hi : Invocation [name, h] flags arguments)
    (hn : Command.ofName? name = some c) (hp : name.Plain) (hv : Hex.isValid h = true)
    (hc : c.answer? (!flags .uncompressed) ⟨flags .strict⟩ = some (kind, answer))
    (ht : Prints w arguments text) :
    ∃ b, hexArgument kind [h] = .ok b ∧ answer b = .ok text := by
  have hplain : ∀ a ∈ [name, h], a.Plain :=
    List.forall_mem_cons.mpr ⟨hp, List.forall_mem_singleton.mpr (Hex.plain_of_isValid hv)⟩
  obtain ⟨s, hasks, hu, hpol⟩ := hi.asks hplain hn w
  rw [← hu, ← hpol] at hc
  exact (Command.result_run_eq_ok_iff hc).mp (ht.given hasks)

/-! ### Records -/

theorem toRecord_ne_nil (k : KeyPair) : k.toRecord ≠ [] := nofun

/-- **The record of a pair** is imported as the pair, unless the policy refuses its number. -/
theorem alwaysPrints_import (hm : k.Matched)
    (hr : (Policy.mk (flags .strict)).refusal? k.privateKey.scalar.value = none) :
    AlwaysPrints [Bytes.ascii "import", Hex.encode k.toRecord] flags (pairText k) := by
  have hb : hexArgument .record [Hex.encode k.toRecord] = .ok k.toRecord :=
    hexArgument_eq_ok_iff.mpr ⟨_, _, rfl, Hex.decode_encode _, toRecord_ne_nil k⟩
  refine .of_answer (c := .importRecord) (by decide) (by decide)
    (Hex.isValid_encode (toRecord_ne_nil k)) rfl hb ?_
  rw [hm.ofRecord_toRecord hr]
  rfl

/-- **What is exported is imported.**  When a pair is derived from an argument, exporting with the
same flags prints one line of digits, in whatever surroundings, and importing these digits with the
same strictness prints what deriving printed.  When a pair is generated, the digits of its record
are behind its four lines, and importing them prints these four lines. -/
theorem import_exported :
    (∀ (h : Bytes) (flags : Flag → Bool), Hex.isValid h = true →
      ∀ (σ : Type) (w : Surroundings σ) (arguments : List Bytes) (text : Bytes),
        Invocation [Bytes.ascii "derive", h] flags arguments → Prints w arguments text →
        ∃ k r, text = pairText k ∧ Hex.decode r = .ok k.toRecord ∧ Text.newline ∉ r ∧
          AlwaysPrints [Bytes.ascii "export", h] flags (r ++ [Text.newline]) ∧
          ∀ flags' : Flag → Bool, flags' .strict = flags .strict →
            AlwaysPrints [Bytes.ascii "import", r] flags' text) ∧
    ∀ flags : Flag → Bool, flags .strict = false →
      ∀ (σ : Type) (w : Surroundings σ) (arguments : List Bytes) (text : Bytes),
        Invocation [Bytes.ascii "generate"] flags arguments → Prints w arguments text →
        ∃ first r, first.length = 4 ∧
          Text.lines text = first ++ [Bytes.ascii "record:     " ++ r] ∧
          ∀ flags' : Flag → Bool, flags' .strict = false →
            AlwaysPrints [Bytes.ascii "import", r] flags' (Text.unlines first) := by
  constructor
  · intro h flags hv σ w arguments text hi ht
    obtain ⟨b, hb, ha⟩ := exists_answer hi (c := .derive) (by decide) (by decide) hv rfl ht
    obtain ⟨k, hk, rfl⟩ := map_eq_ok_iff.mp ha
    obtain ⟨d, -, -, hr, hm, hd, -⟩ := KeyPair.ofScalar_ok hk
    refine ⟨k, Hex.encode k.toRecord, rfl, Hex.decode_encode _, newline_not_mem_encode _, ?_, ?_⟩
    · refine .of_answer (c := .exportRecord) (by decide) (by decide) hv rfl hb ?_
      rw [hk]
      rfl
    · intro flags' hs
      exact alwaysPrints_import hm (by rw [hs, hd, hr])
  · intro flags hs σ w arguments text hi ht
    obtain ⟨s, ha, -, -⟩ := hi.asks (by decide) (c := .generate) (by decide) w
    have hg := ht.given ha
    obtain ⟨g, hgen⟩ := exists_generated hg
    obtain ⟨k, hg', hm, -⟩ := given_generated s [] hgen
    cases hg.symm.trans hg'
    refine ⟨pairLines k, Hex.encode k.toRecord, rfl, ?_, fun flags' hs' => ?_⟩
    · rw [generatedText_eq, Text.lines_unlines (newline_not_mem_generatedLines k), generatedLines]
    · rw [← pairText_eq]
      refine alwaysPrints_import hm ?_
      rw [hs']
      exact Policy.refusal?_lenient k.privateKey.value_ne_zero

/-- The number 2 from digits, and from a draw. -/
theorem import_exported_two :
    ∃ k r first r', Prints (alone []) [Bytes.ascii "derive", Bytes.ascii "0X02"] (pairText k) ∧
      AlwaysPrints [Bytes.ascii "export", Bytes.ascii "0X02"] (fun _ => false)
        (r ++ [Text.newline]) ∧
      AlwaysPrints [Bytes.ascii "import", r] (fun _ => false) (pairText k) ∧
      (∃ text, Prints (drawing 2) [Bytes.ascii "generate"] text ∧
        Text.lines text = first ++ [Bytes.ascii "record:     " ++ r']) ∧
      AlwaysPrints [Bytes.ascii "import", r'] (fun _ => false) (Text.unlines first) := by
  have hr : Policy.lenient.refusal? ((Scalar.ofBytes [2]).value % Curve.order) = none := by
    rw [Scalar.value_ofBytes]
    rfl
  obtain ⟨k, hk, -⟩ := KeyPair.ofScalar_accepted true (by decide) hr
  have hd : AlwaysPrints [Bytes.ascii "derive", Bytes.ascii "0X02"] (fun _ => false)
      (pairText k) := by
    refine .of_answer (c := .derive) (b := [2]) (by decide) (by decide) (by decide) rfl rfl ?_
    change ((KeyPair.ofScalar _ true .lenient).result.map pairText) = _
    rw [hk]
    rfl
  have hdi : Invocation [Bytes.ascii "derive", Bytes.ascii "0X02"] (fun _ => false)
      [Bytes.ascii "derive", Bytes.ascii "0X02"] := .bare (by decide)
  have hgi : Invocation [Bytes.ascii "generate"] (fun _ => false) [Bytes.ascii "generate"] :=
    .bare (by decide)
  obtain ⟨s, ha, -⟩ := hgi.asks (by decide) (c := .generate) (by decide) (drawing 2)
  obtain ⟨g, hg, -⟩ := generate_drawing (n := 2) (by decide)
  obtain ⟨l, hl, -⟩ := given_generated s [] hg
  obtain ⟨he, ho⟩ := ha.run_ok hl
  obtain ⟨_, r, -, -, -, hexport, himport⟩ := import_exported.1 (Bytes.ascii "0X02") (fun _ => false)
    (by decide) _ _ _ _ hdi (hd _ (alone []) _ hdi)
  obtain ⟨first, r', -, hlines, hfirst⟩ := import_exported.2 (fun _ => false) rfl _ _ _ _ hgi
    ⟨he, ho⟩
  exact ⟨k, r, first, r', hd _ _ _ hdi, hexport, himport _ rfl, ⟨_, ⟨he, ho⟩, hlines⟩,
    hfirst _ rfl⟩

end Tool

end CurveKeys
