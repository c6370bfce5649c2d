import Ooows.Net.Encoding
import Ooows.Net.Firmware
import Mathlib.Data.List.Nodup

/-!
# Ooows.Net.Layout

Where the assembler puts instructions, and what it makes of branch targets.

`extract_labels` numbers the statements of the source, `resolve_targets` makes the list
that is written, and `main` writes five bytes for each of its items.  The number of a
statement is its place in the output only if `resolve_targets` keeps every statement,
and it drops the branches whose target is a number: `layout_iff_no_literal`.
-/

namespace Ooows.Net

open Lib.Bits

/-- The target of a branch. -/
def Instruction.target? {τ : Type} : Instruction τ → Option τ
  | .branch _ _ _ target => some target
  | _ => none

variable {ι : Type}

/-- What a target stands for: the statement that has the label, or the number itself. -/
def Target.Means (source : List (Statement ι)) (n : Nat) : Target ι → Prop
  | .label name => ∃ s, source[n]? = some s ∧ s.label = some name
  | .literal m => n = m

/-- An instruction of the engine is one of the source, its target as `means` has it. -/
def Instruction.Resolves {τ : Type} (means : τ → Nat → Prop) :
    Instruction τ → Instruction (Fin 4096) → Prop
  | .branch opcode src1 src2 target, inst =>
    ∃ n : Fin 4096, inst = .branch opcode src1 src2 n ∧ means target n.val
  | inst, inst' => inst' = inst.mapTarget fun _ => 0

/-- **The layout that is expected**: one instruction of five bytes for each statement, in
order, and each target the place of the instruction behind its label, or its number. -/
structure LaidOut (source : List (Statement ι)) (image : List UInt8) : Prop where
  length : image.length = 5 * source.length
  inst : ∀ k s, source[k]? = some s → ∃ inst,
    decode (ofBytes ((image.drop (5 * k)).take 5)) = some inst ∧
    s.inst.Resolves (fun target n => target.Means source n) inst

/-- No branch has a number for its target. -/
def NoLiteral (source : List (Statement ι)) : Prop :=
  ∀ s ∈ source, ∀ n, s.inst.target? ≠ some (.literal n)

/-- Every instruction has its name in the table, labels are defined once, and those that are used
are defined where twelve bits reach. -/
structure WellLabelled (source : List (Statement ι)) : Prop where
  known : ∀ s ∈ source, s.inst.known = true
  nodup : (source.filterMap Statement.label).Nodup
  defined : ∀ s ∈ source, ∀ name, s.inst.target? = some (.label name) →
    ∃ n < 4096, Target.Means source n (.label name)

/-! ## labels -/

/-- The labels with the numbers of their statements, counted from `i`. -/
def definitions (i : Nat) : List (Statement ι) → List (ι × Nat)
  | [] => []
  | s :: rest =>
    match s.label with
    | none => definitions (i + 1) rest
    | some name => (name, i) :: definitions (i + 1) rest

theorem map_fst_definitions (i : Nat) (source : List (Statement ι)) :
    (definitions i source).map Prod.fst = source.filterMap Statement.label := by
  induction source generalizing i with
  | nil => rfl
  | cons s rest ih =>
    cases hlabel : s.label with
    | none => rw [definitions, hlabel, List.filterMap_cons_none hlabel, ih]
    | some name => rw [definitions, hlabel, List.filterMap_cons_some hlabel, List.map_cons, ih]

variable {source : List (Statement ι)} {labels : List (ι × Nat)} {image : List UInt8}

theorem mem_definitions {i n : Nat} {name : ι} :
    (name, n) ∈ definitions i source ↔
      i ≤ n ∧ ∃ s, source[n - i]? = some s ∧ s.label = some name := by
  induction source generalizing i with
  | nil => simp [definitions]
  | cons s rest ih =>
    have hsplit : (i ≤ n ∧ ∃ s', (s :: rest)[n - i]? = some s' ∧ s'.label = some name) ↔
        (n = i ∧ s.label = some name) ∨
          (i + 1 ≤ n ∧ ∃ s', rest[n - (i + 1)]? = some s' ∧ s'.label = some name) := by
      rcases Nat.lt_trichotomy n i with h | h | h
      · simp [Nat.not_le_of_lt h, Nat.ne_of_lt h, Nat.not_le_of_lt (Nat.lt_succ_of_lt h)]
      · simp [h]
      · obtain ⟨k, rfl⟩ : ∃ k, n = i + 1 + k := ⟨n - (i + 1), by omega⟩
        simp [show i + 1 + k - i = k + 1 by omega, show i ≤ i + 1 + k by omega,
          show i + 1 + k ≠ i by omega]
    rw [hsplit, ← ih]
    cases hlabel : s.label with
    | none => simp [definitions, hlabel]
    | some name' => simp [definitions, hlabel, eq_comm, and_comm]

/-- Whether `resolve_targets` keeps a statement. -/
def Statement.kept (s : Statement ι) : Bool :=
  match s.inst with
  | .branch _ _ _ (.literal _) => false
  | _ => true

theorem kept_iff {s : Statement ι} : s.kept = true ↔ ∀ n, s.inst.target? ≠ some (.literal n) := by
  unfold Statement.kept
  split
  next h => simp [h, Instruction.target?]
  next h =>
    simp only [true_iff]
    intro n hn
    cases hinst : s.inst with
    | branch opcode src1 src2 target =>
      rw [hinst] at hn
      cases hn
      exact h _ _ _ _ hinst
    | _ =>
      rw [hinst] at hn
      contradiction

theorem noLiteral_iff :
    NoLiteral source ↔ ∀ s ∈ source, s.kept = true := by
  simp only [NoLiteral, kept_iff]

variable [DecidableEq ι]

/-- **`extract_labels`** finds every label, and refuses one that is defined twice. -/
theorem extractLabels_eq {i : Nat}
    (h : (labels.map Prod.fst).Nodup) : extractLabels i source labels =
      if ((labels ++ definitions i source).map Prod.fst).Nodup
      then some (labels ++ definitions i source) else none := by
  induction source generalizing i labels with
  | nil => simp [extractLabels, definitions, h]
  | cons s rest ih =>
    cases hlabel : s.label with
    | none =>
      simp only [extractLabels, definitions, hlabel]
      exact ih h
    | some name =>
      have hknown : (labels.lookup name).isSome = true ↔ name ∈ labels.map Prod.fst := by
        simp only [List.lookup_isSome_iff, List.mem_map, beq_iff_eq, eq_comm (a := name)]
      simp only [extractLabels, definitions, hlabel]
      by_cases hmem : name ∈ labels.map Prod.fst
      · have hnot : ¬ ((labels ++ (name, i) :: definitions (i + 1) rest).map Prod.fst).Nodup := by
          rw [List.map_append, List.nodup_append]
          rintro ⟨-, -, hdisjoint⟩
          exact hdisjoint name hmem name (List.mem_cons_self ..) rfl
        rw [if_pos (hknown.2 hmem), if_neg hnot]
      · have hnodup : ((labels ++ [(name, i)]).map Prod.fst).Nodup := by
          rw [List.map_append, List.nodup_append]
          refine ⟨h, List.nodup_singleton _, fun a ha b hb hab => hmem ?_⟩
          obtain rfl : b = name := List.mem_singleton.1 hb
          exact hab ▸ ha
        rw [if_neg fun hsome => hmem (hknown.1 hsome), ih hnodup, List.append_assoc]
        rfl

/-- Where keys are distinct, looking one up finds its entry. -/
theorem lookup_eq_some_iff_mem {l : List (ι × Nat)} {name : ι} {n : Nat}
    (h : (l.map Prod.fst).Nodup) : l.lookup name = some n ↔ (name, n) ∈ l := by
  induction l with
  | nil => simp
  | cons p l ih =>
    obtain ⟨name', n'⟩ := p
    obtain ⟨hnot, hrest⟩ := List.nodup_cons.1 h
    by_cases hname : name = name'
    · subst hname
      have hnone : (name, n) ∉ l := fun hmem => hnot (List.mem_map.2 ⟨_, hmem, rfl⟩)
      simp [hnone, eq_comm]
    · rw [List.lookup_cons, show (name == name') = false by simpa using hname]
      simp [ih hrest, hname]

/-- A label of the source is looked up where it stands. -/
theorem lookup_definitions {name : ι} {n : Nat}
    (h : (source.filterMap Statement.label).Nodup) :
    (definitions 0 source).lookup name = some n ↔ Target.Means source n (.label name) := by
  rw [← map_fst_definitions 0] at h
  have hmem : (name, n) ∈ definitions 0 source ↔ Target.Means source n (.label name) := by
    rw [mem_definitions]
    simp [Target.Means]
  rw [← hmem]
  exact lookup_eq_some_iff_mem h

/-! ## targets -/

/-- The target a branch gets, if `resolve_targets` keeps it. -/
def targetOf (labels : List (ι × Nat)) (n : Nat) : Target ι → Prop
  | .label name => labels.lookup name = some n
  | .literal _ => False

/-- An instruction before and after `resolve_targets`. -/
def Instruction.Becomes (labels : List (ι × Nat)) :
    Instruction (Target ι) → Instruction Nat → Prop
  | .branch opcode src1 src2 target, inst =>
    ∃ n, inst = .branch opcode src1 src2 n ∧ targetOf labels n target
  | inst, inst' => inst' = inst.mapTarget fun _ => 0

/-- **`resolve_targets`** drops a statement, or makes one instruction of it. -/
theorem resolveTargets_cons {s : Statement ι} {rest : List (Statement ι)}
    {insts : List (Instruction Nat)} : resolveTargets labels (s :: rest) = some insts ↔
      if s.kept then ∃ inst tail, s.inst.Becomes labels inst ∧
        resolveTargets labels rest = some tail ∧ insts = inst :: tail
      else resolveTargets labels rest = some insts := by
  rw [resolveTargets]
  cases hinst : s.inst with
  | branch opcode src1 src2 target =>
    cases target with
    | literal m => simp [Statement.kept, hinst]
    | label name =>
      simp only [Statement.kept, hinst, if_true, Option.bind_eq_some_iff,
        Option.map_eq_some_iff]
      constructor
      · rintro ⟨n, hn, tail, htail, rfl⟩
        exact ⟨_, tail, ⟨n, rfl, hn⟩, htail, rfl⟩
      · rintro ⟨_, tail, ⟨n, rfl, hn⟩, htail, rfl⟩
        exact ⟨n, hn, tail, htail, rfl⟩
  | _ =>
    simp only [Statement.kept, hinst, if_true, Option.map_eq_some_iff, Instruction.Becomes]
    simp [eq_comm]

/-- The instructions are those of the statements that are kept, in order. -/
theorem resolveTargets_spec
    {insts : List (Instruction Nat)} (h : resolveTargets labels source = some insts) :
    List.Forall₂ (fun s inst => s.inst.Becomes labels inst) (source.filter Statement.kept) insts := by
  induction source generalizing insts with
  | nil =>
    cases h
    exact .nil
  | cons s rest ih =>
    rw [resolveTargets_cons] at h
    by_cases hkept : s.kept = true
    · rw [if_pos hkept] at h
      obtain ⟨inst, tail, hinst, htail, rfl⟩ := h
      rw [List.filter_cons_of_pos hkept]
      exact .cons hinst (ih htail)
    · rw [if_neg hkept] at h
      rw [List.filter_cons_of_neg hkept]
      exact ih h

/-! ## the output -/

/-- `bitstruct.pack` refuses nothing but a target of more than twelve bits. -/
theorem toBinary_isSome {inst : Instruction Nat} :
    (∃ binary, toBinary inst = some binary) ↔ ∀ n, inst.target? = some n → n < 4096 := by
  have hfit : (∃ binary, toBinary inst = some binary) ↔ ∀ f ∈ inst.fields, f.2 < 2 ^ f.1 := by
    simp [toBinary, Option.ite_none_right_eq_some]
  rw [hfit]
  constructor
  · intro h n hn
    cases inst with
    | branch opcode src1 src2 target =>
      cases hn
      exact h (12, n) (by simp [Instruction.fields])
    | _ => contradiction
  · intro h
    -- then it is one of the instructions of the engine
    have hinst : inst.assembled.mapTarget Fin.val = inst := by
      cases inst with
      | branch opcode src1 src2 target =>
        have hlt := h target rfl
        simp [Instruction.assembled, Instruction.mapTarget, Nat.mod_eq_of_lt hlt]
      | _ => rfl
    rw [← hinst, ← Instruction.fields_asm]
    exact AsmInst.fields_fit _

/-- A target that fits. -/
def Instruction.Fits (inst : Instruction Nat) : Prop := ∀ n, inst.target? = some n → n < 4096

theorem fits_of_emit {insts : List (Instruction Nat)}
    (h : emit insts = some image) : ∀ inst ∈ insts, inst.Fits := by
  induction insts generalizing image with
  | nil => simp
  | cons inst rest ih =>
    simp only [emit, Option.bind_eq_some_iff, Option.map_eq_some_iff] at h
    obtain ⟨binary, hbinary, bytes, hbytes, -⟩ := h
    exact List.forall_mem_cons.2 ⟨toBinary_isSome.1 ⟨binary, hbinary⟩, ih hbytes⟩

theorem resolve_emit_isSome :
    (∃ insts image, resolveTargets labels source = some insts ∧ emit insts = some image) ↔
      ∀ s ∈ source, s.kept = true → ∃ inst, s.inst.Becomes labels inst ∧ inst.Fits := by
  induction source with
  | nil => simp [resolveTargets, emit]
  | cons s rest ih =>
    rw [List.forall_mem_cons, ← ih]
    simp only [resolveTargets_cons]
    by_cases hkept : s.kept = true
    · simp only [hkept, if_true, true_implies]
      constructor
      · rintro ⟨_, image, ⟨inst, tail, hinst, htail, rfl⟩, himage⟩
        simp only [emit, Option.bind_eq_some_iff, Option.map_eq_some_iff] at himage
        obtain ⟨binary, hbinary, bytes, hbytes, -⟩ := himage
        exact ⟨⟨inst, hinst, toBinary_isSome.1 ⟨binary, hbinary⟩⟩, tail, bytes, htail, hbytes⟩
      · rintro ⟨⟨inst, hinst, hfits⟩, tail, bytes, htail, hbytes⟩
        obtain ⟨binary, hbinary⟩ := toBinary_isSome.2 hfits
        refine ⟨_, changeEndianessOfEachByte binary ++ bytes, ⟨inst, tail, hinst, htail, rfl⟩, ?_⟩
        rw [emit, hbinary, Option.bind_some, hbytes, Option.map_some]
    · simp [hkept]

/-- The passes of the assembler. -/
theorem assemble_eq_some :
    assemble source = some image ↔ (∀ s ∈ source, s.inst.known = true) ∧
      (source.filterMap Statement.label).Nodup ∧
      ∃ insts, resolveTargets (definitions 0 source) source = some insts ∧ emit insts = some image := by
  have hnone : (([] : List (ι × Nat)).map Prod.fst).Nodup := List.nodup_nil
  rw [← List.all_eq_true, assemble, generateOpcodes]
  by_cases hknown : source.all (·.inst.known) = true
  · rw [if_pos hknown, Option.bind_some]
    simp only [resolve, extractLabels_eq hnone, List.nil_append, map_fst_definitions]
    split
    next h => simp [h, hknown, Option.bind_eq_some_iff]
    next h => simp [h]
  · simp [hknown]

/-- A statement becomes an instruction that fits if its label is defined and fits. -/
theorem becomes_iff {s : Statement ι}
    (h : (source.filterMap Statement.label).Nodup) :
    (s.kept = true → ∃ inst, s.inst.Becomes (definitions 0 source) inst ∧ inst.Fits) ↔
      ∀ name, s.inst.target? = some (.label name) → ∃ n < 4096, Target.Means source n (.label name) := by
  cases hinst : s.inst with
  | branch opcode src1 src2 target =>
    cases target with
    | literal m => simp [Statement.kept, hinst, Instruction.target?]
    | label name =>
      simp only [Statement.kept, hinst, true_implies, Instruction.target?, Option.some.injEq,
        Target.label.injEq, forall_eq', Instruction.Becomes, targetOf, lookup_definitions h]
      constructor
      · rintro ⟨_, ⟨n, rfl, hn⟩, hfits⟩
        exact ⟨n, hfits n rfl, hn⟩
      · rintro ⟨n, hlt, hn⟩
        refine ⟨_, ⟨n, rfl, hn⟩, fun m hm => ?_⟩
        cases hm
        exact hlt
  | _ =>
    simp [Instruction.Becomes, Instruction.Fits, Instruction.mapTarget, Instruction.target?]

/-- **When the assembler has an output.** -/
theorem assemble_isSome :
    (∃ image, assemble source = some image) ↔ WellLabelled source := by
  simp only [assemble_eq_some]
  constructor
  · rintro ⟨image, hknown, hnodup, insts, hinsts, himage⟩
    refine ⟨hknown, hnodup, fun s hs => (becomes_iff hnodup).1 ?_⟩
    exact resolve_emit_isSome.1 ⟨insts, image, hinsts, himage⟩ s hs
  · rintro ⟨hknown, hnodup, hdefined⟩
    obtain ⟨insts, image, h⟩ := resolve_emit_isSome.2 fun s hs => (becomes_iff hnodup).2 (hdefined s hs)
    exact ⟨image, hknown, hnodup, insts, h⟩

/-- An instruction that was resolved and packed is the one that is meant. -/
theorem Instruction.Becomes.resolves
    (h : (source.filterMap Statement.label).Nodup) {inst : Instruction (Target ι)}
    {inst' : Instruction Nat} (hinst : inst.Becomes (definitions 0 source) inst') (hfits : inst'.Fits) :
    inst.Resolves (fun target n => target.Means source n) inst'.assembled := by
  cases inst with
  | branch opcode src1 src2 target =>
    obtain ⟨n, rfl, hn⟩ := hinst
    have hlt : n < 4096 := hfits n rfl
    cases target with
    | literal m => exact hn.elim
    | label name => exact ⟨⟨n, hlt⟩, by simp [assembled, mapTarget, Fin.ofNat, Nat.mod_eq_of_lt hlt],
        (lookup_definitions h).1 hn⟩
  | _ =>
    cases hinst
    rfl

/-- **Layout of an output**: the statements that are kept, in order. -/
theorem length_assemble
    (h : assemble source = some image) : image.length = 5 * (source.filter Statement.kept).length := by
  obtain ⟨-, -, insts, hinsts, himage⟩ := assemble_eq_some.1 h
  rw [(resolveTargets_spec hinsts).length_eq]
  exact (emit_spec himage).1

theorem laidOut_of_noLiteral
    (h : assemble source = some image) (hliteral : NoLiteral source) : LaidOut source image := by
  have hall : source.filter Statement.kept = source :=
    List.filter_eq_self.2 (noLiteral_iff.1 hliteral)
  have hlength := length_assemble h
  rw [hall] at hlength
  refine ⟨hlength, fun k s hs => ?_⟩
  obtain ⟨-, hnodup, insts, hinsts, himage⟩ := assemble_eq_some.1 h
  have hspec := resolveTargets_spec hinsts
  rw [hall] at hspec
  obtain ⟨hk, rfl⟩ := List.getElem?_eq_some_iff.1 hs
  have hk' : k < insts.length := hspec.length_eq ▸ hk
  refine ⟨_, (emit_spec himage).2 k _ (List.getElem?_eq_getElem hk'), ?_⟩
  exact (hspec.get hk hk').resolves hnodup (fits_of_emit himage _ (List.getElem_mem hk'))

/-- **The assembler's layout.**  It has an output just for the programs without `br_!signal` whose
labels are defined once and, where they are used, within reach.  The output has one instruction for
each statement, in order, and every target the place of the instruction behind its label
or the number that is given, exactly if no target is given as a number: such a branch is
left out. -/
theorem layout_iff_no_literal (source : List (Statement ι)) :
    ((∃ image, assemble source = some image) ↔ WellLabelled source) ∧
    ∀ image, assemble source = some image → (LaidOut source image ↔ NoLiteral source) := by
  refine ⟨assemble_isSome, fun image h => ⟨fun hlaid => ?_, laidOut_of_noLiteral h⟩⟩
  have hlength := hlaid.length
  rw [length_assemble h] at hlength
  rw [noLiteral_iff]
  exact List.length_filter_eq_length_iff.1 (by omega)

/-- `br[0]`, `br[end]`, `end: nop`. -/
def literalBranch : List (Statement Unit) := [
  ⟨none, .branch .br Firmware.dontCare Firmware.dontCare (.literal 0)⟩,
  ⟨none, .branch .br Firmware.dontCare Firmware.dontCare (.label ())⟩,
  ⟨some (), .nop⟩]

/-- **A branch to a number is left out**, and the labels behind it are one too high: the
second branch goes to index 2, the instruction behind its label is at index 1. -/
theorem literal_branch_left_out : ∃ image, assemble literalBranch = some image ∧
    image.length = 10 ∧
    decode (ofBytes (image.take 5)) =
      some (.branch .br Firmware.dontCare Firmware.dontCare 2) ∧
    decode (ofBytes (image.drop 5)) = some .nop := by
  have h : (assemble literalBranch).any (fun image => decide (image.length = 10 ∧
      decode (ofBytes (image.take 5)) =
        some (.branch .br Firmware.dontCare Firmware.dontCare 2) ∧
      decode (ofBytes (image.drop 5)) = some .nop)) = true := by
    decide +kernel
  obtain ⟨image, himage, hend⟩ := (Option.any_eq_true _ _).1 h
  exact ⟨image, himage, of_decide_eq_true hend⟩

end Ooows.Net
