/-!
# Ooows.Lib.Path

Slash-separated paths as byte strings, and their lexical resolution: empty
components and `.` are skipped, `..` drops the component before it.

* `components` / `render` take a path apart and put an absolute one together;
* `lexical` resolves a path without looking at any directory tree;
* a component is `Plain` when it stands for itself, and a list of plain
  components survives the round trip through its string
  (`lexical_render`, `lexical_render_append`).

This module depends only on the Lean 4 core library.
-/

namespace Ooows.Lib

/-- Byte strings. -/
abbrev Bytes := List UInt8

/-- The bytes of an ASCII text given by its characters. -/
def ascii (cs : List Char) : Bytes := cs.map fun c => UInt8.ofNat c.toNat

namespace Path

/-- `/`. -/
def slash : UInt8 := 0x2f

/-- The component `.`. -/
def dot : Bytes := [0x2e]

/-- The component `..`. -/
def dotdot : Bytes := [0x2e, 0x2e]

/-- The components of a path; an absolute path has an empty first one. -/
def components (p : Bytes) : List Bytes := p.splitOn slash

/-- The absolute path with the given components. -/
def render (cs : List Bytes) : Bytes :=
  if cs = [] then [slash] else [slash].intercalate ([] :: cs)

/-- A component that is neither skipped nor a step up, and holds no slash. -/
def Plain (c : Bytes) : Prop := c ≠ [] ∧ c ≠ dot ∧ c ≠ dotdot ∧ slash ∉ c

instance (c : Bytes) : Decidable (Plain c) :=
  inferInstanceAs (Decidable (_ ∧ _ ∧ _ ∧ _))

/-- Resolve one more component below the resolved prefix `acc`. -/
def enter (acc : List Bytes) (c : Bytes) : List Bytes :=
  if c = [] ∨ c = dot then acc else if c = dotdot then acc.dropLast else acc ++ [c]

/-- Where the resolution of `p` starts: the root, or the working directory. -/
def start (cwd : List Bytes) (p : Bytes) : List Bytes :=
  if p.head? = some slash then [] else cwd

/-- Lexical resolution of a path against the working directory `cwd`. -/
def lexical (cwd : List Bytes) (p : Bytes) : List Bytes :=
  (components p).foldl enter (start cwd p)

/-! ## entering components -/

variable {c : Bytes}

theorem enter_plain {acc : List Bytes} (h : Plain c) : enter acc c = acc ++ [c] := by
  obtain ⟨hne, hdot, hdd, -⟩ := h
  simp [enter, hne, hdot, hdd]

@[simp] theorem enter_nil (acc : List Bytes) : enter acc [] = acc := by simp [enter]

@[simp] theorem enter_dotdot (acc : List Bytes) : enter acc dotdot = acc.dropLast := by
  simp [enter, dot, dotdot]

/-- A run of plain components is appended as it stands. -/
theorem foldl_enter_plain {acc cs : List Bytes} (h : ∀ c ∈ cs, Plain c) :
    cs.foldl enter acc = acc ++ cs := by
  induction cs generalizing acc with
  | nil => simp
  | cons c cs ih =>
    have hc : Plain c := h c (by simp)
    have hcs : ∀ d ∈ cs, Plain d := fun d hd => h d (by simp [hd])
    rw [List.foldl_cons, enter_plain hc, ih hcs]
    simp

/-- Entering a slash-free component keeps a resolved prefix plain. -/
theorem plain_enter {acc : List Bytes} (hacc : ∀ d ∈ acc, Plain d)
    (hc : slash ∉ c) : ∀ d ∈ enter acc c, Plain d := by
  intro d hd
  unfold enter at hd
  split at hd
  · exact hacc d hd
  · next hskip =>
      split at hd
      · exact hacc d (List.dropLast_subset acc hd)
      · next hdd =>
          rcases List.mem_append.mp hd with hd | hd
          · exact hacc d hd
          · rw [List.mem_singleton] at hd
            subst hd
            simp only [not_or] at hskip
            exact ⟨hskip.1, hskip.2, hdd, hc⟩

/-! ## paths and their components -/

theorem slash_not_mem_of_mem_components {p c : Bytes} (h : c ∈ components p) : slash ∉ c := by
  unfold components at h
  induction p generalizing c with
  | nil =>
    simp only [List.splitOn_nil, List.mem_singleton] at h
    simp [h]
  | cons x p ih =>
    rw [List.splitOn_cons_eq_if_modifyHead] at h
    split at h
    · rcases List.mem_cons.mp h with rfl | h
      · simp
      · exact ih h
    · next hx =>
        cases hs : p.splitOn slash with
        | nil => exact absurd hs (List.splitOn_ne_nil _ _)
        | cons w ws =>
          rw [hs] at h ih
          simp only [List.modifyHead_cons, List.mem_cons] at h
          rcases h with rfl | h
          · have hw : slash ∉ w := ih (by simp)
            simp only [List.mem_cons, not_or]
            exact ⟨fun h => hx (by simp [h]), hw⟩
          · exact ih (by simp [h])

/-- Lexical resolution against a plain working directory yields plain components. -/
theorem plain_lexical {cwd : List Bytes} {p : Bytes} (hcwd : ∀ c ∈ cwd, Plain c) :
    ∀ c ∈ lexical cwd p, Plain c := by
  have hstart : ∀ c ∈ start cwd p, Plain c := by
    unfold start
    split
    · simp
    · exact hcwd
  have hfold : ∀ (cs acc : List Bytes), (∀ c ∈ cs, slash ∉ c) → (∀ c ∈ acc, Plain c) →
      ∀ c ∈ cs.foldl enter acc, Plain c := by
    intro cs
    induction cs with
    | nil => exact fun acc _ hacc => hacc
    | cons c cs ih =>
      intro acc hcs hacc
      rw [List.foldl_cons]
      exact ih _ (fun d hd => hcs d (by simp [hd])) (plain_enter hacc (hcs c (by simp)))
  exact hfold _ _ (fun c hc => slash_not_mem_of_mem_components hc) hstart

theorem components_append_slash (p q : Bytes) :
    components (p ++ slash :: q) = components p ++ components q :=
  List.splitOn_append_cons_self p q

theorem components_of_not_mem (h : slash ∉ c) : components c = [c] :=
  List.splitOn_eq_singleton h

/-- The components of an absolute path with plain components: the empty one in
front, then the components; the root has one more empty one. -/
theorem components_render {cs : List Bytes} (h : ∀ c ∈ cs, Plain c) :
    components (render cs) = if cs = [] then [[], []] else [] :: cs := by
  unfold render components
  split
  · decide
  · apply List.splitOn_intercalate
    · intro l hl
      rcases List.mem_cons.mp hl with rfl | hl
      · simp
      · exact (h l hl).2.2.2
    · simp

theorem head?_render (cs : List Bytes) : (render cs).head? = some slash := by
  unfold render
  split
  · rfl
  · next h =>
      cases cs with
      | nil => contradiction
      | cons c cs => simp [List.intercalate_cons_cons]

/-- **Round trip**: an absolute path with plain components resolves to them. -/
theorem lexical_render {cs : List Bytes} (cwd : List Bytes) (h : ∀ c ∈ cs, Plain c) :
    lexical cwd (render cs) = cs := by
  unfold lexical start
  rw [components_render h, head?_render, if_pos rfl]
  split
  · next hcs => simp [hcs]
  · rw [List.foldl_cons, enter_nil, foldl_enter_plain h, List.nil_append]

/-- A path with one more slash-free component resolves to the prefix with that
component entered. -/
theorem lexical_render_append {cs : List Bytes} (cwd : List Bytes)
    (h : ∀ d ∈ cs, Plain d) (hc : slash ∉ c) :
    lexical cwd (render cs ++ slash :: c) = enter cs c := by
  have hhead : (render cs ++ slash :: c).head? = some slash := by
    rw [List.head?_append, head?_render]
    rfl
  unfold lexical start
  rw [components_append_slash, components_of_not_mem hc, hhead, if_pos rfl, List.foldl_append]
  have hpre : (components (render cs)).foldl enter [] = cs := by
    have := lexical_render cwd h
    unfold lexical start at this
    rwa [head?_render, if_pos rfl] at this
  rw [hpre]
  rfl

/-- Distinct lists of plain components have distinct strings. -/
theorem render_injective {cs ds : List Bytes} (hcs : ∀ c ∈ cs, Plain c) (hds : ∀ d ∈ ds, Plain d)
    (h : render cs = render ds) : cs = ds := by
  rw [← lexical_render [] hcs, ← lexical_render [] hds, h]

end Path

end Ooows.Lib
