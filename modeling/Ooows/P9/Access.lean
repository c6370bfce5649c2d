import Ooows.P9.Atomic
import Ooows.P9.Ownership

/-!
# Ooows.P9.Access

What `TRead` and `TWrite` do to files.

`Written` says that a file has got some bytes at an offset, and is the same elsewhere.  A
write whose seek is accepted does exactly this, and a read returns what is there.
`QidObject::Write` goes on after a seek that was rejected, though, and then writes to wherever the
descriptor stands (`write_ignores_rejected_seek`).  `access_exact` says that this is the only
difference, and that it shows unless the file has these bytes there already.
-/

namespace Ooows.P9

open Lib Lib.Path

/-- `new` has `bs` at `pos` and is `old` elsewhere; a gap behind the end of `old` is zeros. -/
def Written (old : Bytes) (pos : Nat) (bs new : Bytes) : Prop :=
  ∀ k, new[k]? =
    if k < pos then some (old.getD k 0) else if k < pos + bs.length then bs[k - pos]? else old[k]?

/-- What a write leaves is determined. -/
theorem Written.unique {old bs new new' : Bytes} {pos : Nat} (h : Written old pos bs new)
    (h' : Written old pos bs new') : new = new' :=
  List.ext_getElem? fun k => (h k).trans (h' k).symm

/-- `lseek` accepts the offset. -/
def Env.seeks (env : Env) (offset : UInt64) : Prop := offset.toNat < 2 ^ 63 ∧ env.accepts offset

instance (env : Env) (offset : UInt64) : Decidable (env.seeks offset) :=
  inferInstanceAs (Decidable (_ ∧ _))

namespace Host

variable {h h' : Host} {fd : Int}

theorem splice_written {bs : Bytes} (hbs : bs ≠ []) (old : Bytes) (pos : Nat) :
    Written old pos bs (splice old pos bs) := by
  intro k
  have hlen : (old.take pos ++ List.replicate (pos - old.length) 0).length = pos := by
    rw [List.length_append, List.length_take, List.length_replicate]
    omega
  rw [splice, if_neg hbs]
  by_cases hlow : k < pos
  · rw [if_pos hlow, List.append_assoc, List.getElem?_append_left (by omega)]
    by_cases hold : k < old.length
    · rw [List.getElem?_append_left (by rw [List.length_take]; omega), List.getElem?_take_of_lt hlow,
        List.getElem?_eq_getElem hold, List.getD_eq_getElem?_getD, List.getElem?_eq_getElem hold]
      rfl
    · rw [List.getElem?_append_right (by rw [List.length_take]; omega), List.getElem?_replicate,
        if_pos (by rw [List.length_take]; omega), List.getD_eq_getElem?_getD,
        List.getElem?_eq_none (Nat.le_of_not_lt hold)]
      rfl
  · rw [if_neg hlow, List.append_assoc, List.getElem?_append_right (by omega), hlen]
    by_cases hmid : k < pos + bs.length
    · rw [if_pos hmid, List.getElem?_append_left (by omega)]
    · rw [if_neg hmid, List.getElem?_append_right (by omega), List.getElem?_drop]
      congr 1
      omega

/-- `write` puts all of `bs` where the descriptor stands. -/
theorem write_data {bs : Bytes} {n : Nat} (hw : h.write fd bs = some (n, h')) :
    ∃ f i, h.file fd = some f ∧ f.ino = some i ∧ n = bs.length ∧ h'.node = h.node ∧
      ∀ j, h'.data j = if j = i then splice (h.data i) f.pos bs else h.data j := by
  unfold write at hw
  split at hw
  · contradiction
  next f hf =>
    split at hw
    next i _ hi =>
      cases hw
      exact ⟨f, i, hf, hi, rfl, rfl, fun j => rfl⟩
    · contradiction

/-- `read` returns what is behind the descriptor's position. -/
theorem read_data {count : Nat} {bs : Bytes} (hr : h.read fd count = some (bs, h')) :
    ∃ f i, h.file fd = some f ∧ f.ino = some i ∧ bs = ((h.data i).drop f.pos).take count := by
  unfold read at hr
  split at hr
  · contradiction
  next f hf =>
    split at hr
    next i _ hi =>
      cases hr
      exact ⟨f, i, hf, hi, rfl⟩
    · contradiction

/-- A seek that is accepted sets the position. -/
theorem lseek_file {accepts : UInt64 → Bool} {offset : UInt64} {f : OpenFile}
    (hf : h.file fd = some f) (hs : h.lseek accepts fd offset = some h') :
    (offset.toNat < 2 ^ 63 ∧ accepts offset) ∧
      h'.file fd = some { f with pos := offset.toNat } := by
  rw [lseek, hf] at hs
  dsimp only at hs
  split at hs
  next hoffset =>
    cases hs
    exact ⟨hoffset, by rw [file_setFile (by simp [hf]), if_pos rfl]⟩
  · contradiction

theorem lseek_rejected {accepts : UInt64 → Bool} {offset : UInt64} {f : OpenFile}
    (hf : h.file fd = some f) (hs : h.lseek accepts fd offset = none) :
    ¬ (offset.toNat < 2 ^ 63 ∧ accepts offset) := by
  intro hoffset
  rw [lseek, hf] at hs
  dsimp only at hs
  rw [if_pos hoffset] at hs
  contradiction

theorem lseek_of_bad {accepts : UInt64 → Bool} {offset : UInt64} (hf : h.file fd = none) :
    h.lseek accepts fd offset = none := by
  rw [lseek, hf]

end Host

namespace Dev

variable {env : Env} {s t : Dev} {p : Ptr} {fid : UInt32} {offset : UInt64}

/-- The object has a descriptor for the open file `f`. -/
def Behind (s : Dev) (p : Ptr) (fd : Int) (f : OpenFile) : Prop :=
  heldFd (s.obj p) = some fd ∧ s.host.file fd = some f

/-- The file of `f` has got `bs` at a position, and no other file has changed. -/
structure Writes (s t : Dev) (f : OpenFile) (pos : Nat) (bs : Bytes) : Prop where
  file : ∃ i, f.ino = some i ∧ Written (s.host.data i) pos bs (t.host.data i) ∧
    ∀ j, j ≠ i → t.host.data j = s.host.data j
  node : t.host.node = s.host.node

/-- **`QidObject::Write`** writes at the offset if the seek is accepted, and otherwise to where the
descriptor stands. -/
theorem qidWrite_writes {data : Bytes} {n : UInt32} (hlen : data.length < 2 ^ 32)
    (hdir : (s.obj p).type ≠ p9QTDIR) (hopened : (s.obj p).opened = true)
    (h : qidWrite env p offset data s = (t, n)) (hn : n ≠ 0) :
    ∃ fd f, s.Behind p fd f ∧ n.toNat ≤ data.length ∧
      data.take n.toNat = data.take (env.written data.length) ∧
      Writes s t f (if env.seeks offset then offset.toNat else f.pos) (data.take n.toNat) := by
  simp only [qidWrite, hopened, if_true] at h
  split at h
  · cases h
    exact absurd rfl hn
  cases hfile : s.host.file (s.obj p).fd with
  | none =>
    -- then the descriptor is bad, and the write fails too
    simp only [Host.lseek_of_bad hfile, Option.getD_none, Host.write, hfile, Prod.mk.injEq] at h
    exact absurd h.2.symm hn
  | some f =>
    -- where the descriptor stands when `write` is called
    obtain ⟨g, hg, hino, hpos, hnode₁, hdata₁⟩ : ∃ g,
        ((s.host.lseek env.accepts (s.obj p).fd offset).getD s.host).file (s.obj p).fd = some g ∧
        g.ino = f.ino ∧ g.pos = (if env.seeks offset then offset.toNat else f.pos) ∧
        ((s.host.lseek env.accepts (s.obj p).fd offset).getD s.host).node = s.host.node ∧
        ((s.host.lseek env.accepts (s.obj p).fd offset).getD s.host).data = s.host.data := by
      cases hseek : s.host.lseek env.accepts (s.obj p).fd offset with
      | none =>
        refine ⟨f, hfile, rfl, ?_, rfl, rfl⟩
        rw [if_neg (show ¬ env.seeks offset from Host.lseek_rejected hfile hseek)]
      | some h₁ =>
        obtain ⟨hoffset, hfile₁⟩ := Host.lseek_file hfile hseek
        exact ⟨_, hfile₁, rfl, (if_pos hoffset).symm, lseek_node hseek⟩
    generalize (s.host.lseek env.accepts (s.obj p).fd offset).getD s.host = h₁ at *
    cases hwrite : h₁.write (s.obj p).fd (data.take (env.written data.length)) with
    | none =>
      rw [hwrite] at h
      cases h
      exact absurd rfl hn
    | some x =>
      obtain ⟨m, h₂⟩ := x
      rw [hwrite] at h
      cases h
      obtain ⟨g', i, hg', hi, rfl, hnode, hdata⟩ := Host.write_data hwrite
      obtain rfl : g = g' := Option.some.inj (hg.symm.trans hg')
      have hm : (UInt32.ofNat (data.take (env.written data.length)).length).toNat =
          min (env.written data.length) data.length := by
        rw [UInt32.toNat_ofNat', List.length_take]
        omega
      have htake : data.take (min (env.written data.length) data.length) =
          data.take (env.written data.length) := by
        rw [← List.take_take, List.take_length]
      have hbs : data.take (env.written data.length) ≠ [] := by
        intro hnil
        rw [hnil] at hn
        exact hn rfl
      refine ⟨(s.obj p).fd, f, ⟨by simp [heldFd, hopened, hdir], hfile⟩, ?_, by rw [hm, htake],
        ⟨i, hino ▸ hi, ?_, ?_⟩, ?_⟩
      · rw [hm]
        exact Nat.min_le_right _ _
      · have hnew : h₂.data i = Host.splice (s.host.data i) g.pos
            (data.take (env.written data.length)) := by
          rw [hdata, if_pos rfl, hdata₁]
        rw [hm, htake, hnew, ← hpos]
        exact Host.splice_written hbs _ _
      · intro j hj
        rw [hdata, if_neg hj, hdata₁]
      · rw [hnode, hnode₁]

/-- **`QidObject::Read`.** -/
theorem qidRead_data {count : UInt32} {bs : Bytes} (hdir : (s.obj p).type ≠ p9QTDIR)
    (hopened : (s.obj p).opened = true) (h : qidRead env p offset count s = (t, some bs)) :
    (∃ fd f i, s.Behind p fd f ∧ f.ino = some i ∧
        bs = ((s.host.data i).drop offset.toNat).take count.toNat) ∧
      t.host.data = s.host.data ∧ t.host.node = s.host.node := by
  simp only [qidRead, hopened, if_true] at h
  cases hfile : s.host.file (s.obj p).fd with
  | none => simp [Host.lseek_of_bad hfile] at h
  | some f =>
    cases hseek : s.host.lseek env.accepts (s.obj p).fd offset with
    | none => simp [hseek] at h
    | some h₁ =>
      rw [hseek] at h
      dsimp only at h
      split at h
      · simp at h
      cases hread : h₁.read (s.obj p).fd count.toNat with
      | none => simp [hread] at h
      | some x =>
        obtain ⟨cs, h₂⟩ := x
        rw [hread] at h
        cases h
        obtain ⟨-, hfile₁⟩ := Host.lseek_file hfile hseek
        obtain ⟨hnode₁, hdata₁⟩ := lseek_node hseek
        obtain ⟨hnode₂, hdata₂⟩ := read_node hread
        obtain ⟨g, i, hg, hi, rfl⟩ := Host.read_data hread
        obtain rfl : { f with pos := offset.toNat } = g :=
          Option.some.inj (hfile₁.symm.trans hg)
        refine ⟨⟨(s.obj p).fd, f, i, ⟨by simp [heldFd, hopened, hdir], hfile⟩, hi, ?_⟩,
          hdata₂.trans hdata₁, hnode₂.trans hnode₁⟩
        rw [hdata₁]

/-! ## requests -/

theorem behind_register {tag : UInt16} {fd : Int} {f : OpenFile} :
    (s.register tag).Behind p fd f ↔ s.Behind p fd f := by
  rw [Behind, Behind, register_host, register_obj]

theorem process_write {data : Bytes} {tag tag' : UInt16} {n : UInt32} (hlen : data.length < 2 ^ 32)
    (h : process env ⟨tag, .write fid offset data⟩ s = some (t, some ⟨tag', .write n⟩)) :
    ∃ p fd f, s.getFid fid = some p ∧ s.Behind p fd f ∧ n.toNat ≤ data.length ∧
      data.take n.toNat = data.take (env.written data.length) ∧
      Writes s t f (if env.seeks offset then offset.toNat else f.pos) (data.take n.toNat) := by
  obtain ⟨u, res, hexit, -, rfl, hresp⟩ := process_exit h
  obtain rfl := ok_of_respond (by simp) hresp
  cases hexit with
  | answered hm => contradiction
  | @written fid offset data p u n hfid hfile ho hw hn =>
    obtain ⟨fd, f, hbehind, hle, htake, hwrites⟩ :=
      qidWrite_writes hlen (ne_dir_of_file hfile) ho hw hn
    rw [(quiet_register s tag).getFid] at hfid
    refine ⟨p, fd, f, hfid, behind_register.1 hbehind, hle, htake, ?_⟩
    obtain ⟨hdata, hnode⟩ := hwrites
    rw [register_host] at hdata hnode
    exact ⟨hdata, hnode⟩

theorem process_read {count : UInt32} {tag tag' : UInt16} {bs : Bytes}
    (h : process env ⟨tag, .read fid offset count⟩ s = some (t, some ⟨tag', .read bs⟩)) :
    (∃ p fd f i, s.getFid fid = some p ∧ s.Behind p fd f ∧ f.ino = some i ∧
        bs = ((s.host.data i).drop offset.toNat).take count.toNat) ∧
      t.host.data = s.host.data ∧ t.host.node = s.host.node := by
  obtain ⟨u, res, hexit, -, rfl, hresp⟩ := process_exit h
  obtain rfl := ok_of_respond (by simp) hresp
  cases hexit with
  | answered hm => contradiction
  | @read fid offset count p u bs hfid hfile ho hcount hr =>
    obtain ⟨⟨fd, f, i, hbehind, hi, hbs⟩, hsame⟩ := qidRead_data (ne_dir_of_file hfile) ho hr
    rw [(quiet_register s tag).getFid] at hfid
    rw [register_host] at hbs hsame
    exact ⟨⟨p, fd, f, i, hfid, behind_register.1 hbehind, hi, hbs⟩, hsame⟩

/-- A `TWrite` that ends in `RError` has changed no file. -/
theorem process_write_error {data : Bytes} {tag tag' : UInt16} {e : String}
    (hlen : data.length < 2 ^ 32)
    (h : process env ⟨tag, .write fid offset data⟩ s = some (t, some ⟨tag', .error e⟩)) :
    t.host.data = s.host.data ∧ t.host.node = s.host.node := by
  obtain ⟨u, res, hexit, -, rfl, hresp⟩ := process_exit h
  obtain rfl := hexit.error_of_respond hresp
  have hstill := hexit.still rfl hlen nofun rfl
  rw [← register_host s tag]
  exact ⟨hstill.data, hstill.node⟩

end Dev

namespace Loops

variable {s : Loops} {fid : UInt32} {p : Ptr} {fd : Int} {f : OpenFile}

/-- The open file of a fid after some steps: the one behind the descriptor of its object.  As long
as no request has closed an open directory, it is of the inode that the object has opened. -/
def FileOf (s₀ : Loops) (acts : List Act) (d : Dev) (fid : UInt32) (f : OpenFile) : Prop :=
  ∃ p fd, d.getFid fid = some p ∧ d.Behind p fd f ∧
    (s₀.ClosesSafely acts → FdCall.owner (fun _ => none) (s₀.trace acts) fd = some (p, f.ino))

theorem fileOf_of_behind (host : Host) (authRequired : Bool) (sharename mountpoint : Bytes)
    {acts : List Act} (hrun : exec Loops.act (init host authRequired sharename mountpoint) acts = some s)
    (hfid : s.dev.getFid fid = some p) (hbehind : s.dev.Behind p fd f) :
    FileOf (init host authRequired sharename mountpoint) acts s.dev fid f := by
  refine ⟨p, fd, hfid, hbehind, fun hsafe => ?_⟩
  have hok := ((ok_init host authRequired sharename mountpoint).trace hrun).2 hsafe
  obtain ⟨ino, ho⟩ := hok.owns.belongs p (hok.table.lt_of_getFid hfid) fd hbehind.1
  have hfile := hok.owns.file fd p ino ho
  rw [hbehind.2, Option.map_some, Option.some.injEq] at hfile
  rw [ho, ← hfile]

/-- **What the answer `n` to a write promises**: the file has got that many bytes of the data at the
offset, or nothing has changed if the seek was rejected. -/
def WriteKept (env : Env) (s t : Dev) (f : OpenFile) (offset : UInt64) (bs : Bytes) : Prop :=
  if env.seeks offset then s.Writes t f offset.toNat bs
  else t.host.data = s.host.data ∧ t.host.node = s.host.node

/-- A write whose seek was rejected is not seen if the bytes are there already. -/
theorem writeKept_iff {env : Env} {d e : Dev} {offset : UInt64} {bs : Bytes}
    (h : d.Writes e f (if env.seeks offset then offset.toNat else f.pos) bs) :
    WriteKept env d e f offset bs ↔ env.seeks offset ∨ d.Writes d f f.pos bs := by
  unfold WriteKept
  by_cases hseeks : env.seeks offset
  · rw [if_pos hseeks] at h ⊢
    exact ⟨fun _ => .inl hseeks, fun _ => h⟩
  · rw [if_neg hseeks] at h ⊢
    obtain ⟨⟨i, hi, hwritten, hother⟩, hnode⟩ := h
    constructor
    · rintro ⟨hdata, -⟩
      rw [hdata] at hwritten
      exact .inr ⟨⟨i, hi, hwritten, fun _ _ => rfl⟩, rfl⟩
    · rintro (hyes | ⟨⟨j, hj, hsame, -⟩, -⟩)
      · exact absurd hyes hseeks
      · obtain rfl : i = j := Option.some.inj (hi.symm.trans hj)
        refine ⟨funext fun j => ?_, hnode⟩
        by_cases hj : j = i
        · rw [hj]
          exact hwritten.unique hsame
        · exact hother j hj

/-- **File access**: in every state the two threads reach without the walks that leave a fid bound
to a deleted object,

* a `TWrite` that is answered with a count has done what this promises exactly if its seek is
  accepted, or if the fid's file has these bytes already where its descriptor stands;
* a `TWrite` that is answered with an error has changed nothing;
* a `TRead` that is answered with data has returned what the fid's file has at the offset, as much
  as was asked for or is left of it, and changed nothing. -/
theorem access_exact (host : Host) (authRequired : Bool) (sharename mountpoint : Bytes)
    {acts : List Act} {s : Loops}
    (hrun : Run (Guarded (fun s a => s.cloneSafe a) fun s a t => s.act a = some t)
      (init host authRequired sharename mountpoint) acts s)
    (env : Env) (tag : UInt16) (fid : UInt32) (offset : UInt64) :
    s.dev.FidsOk ∧
    (∀ data t tag' n, data.length < 2 ^ 32 →
      s.dev.process env ⟨tag, .write fid offset data⟩ = some (t, some ⟨tag', .write n⟩) →
      ∃ f, FileOf (init host authRequired sharename mountpoint) acts s.dev fid f ∧
        n.toNat ≤ data.length ∧
        (WriteKept env s.dev t f offset (data.take n.toNat) ↔
          env.seeks offset ∨ s.dev.Writes s.dev f f.pos (data.take (env.written data.length)))) ∧
    (∀ data t tag' e, data.length < 2 ^ 32 →
      s.dev.process env ⟨tag, .write fid offset data⟩ = some (t, some ⟨tag', .error e⟩) →
      t.host.data = s.dev.host.data ∧ t.host.node = s.dev.host.node) ∧
    ∀ count t tag' bs,
      s.dev.process env ⟨tag, .read fid offset count⟩ = some (t, some ⟨tag', .read bs⟩) →
      (∃ f i, FileOf (init host authRequired sharename mountpoint) acts s.dev fid f ∧
        f.ino = some i ∧ bs = ((s.dev.host.data i).drop offset.toNat).take count.toNat ∧
        bs.length = min count.toNat ((s.dev.host.data i).length - offset.toNat)) ∧
      t.host.data = s.dev.host.data ∧ t.host.node = s.dev.host.node := by
  have hexec := (run_iff_exec Loops.act).1 (hrun.mono fun _ _ _ hstep => hstep.2)
  refine ⟨fidsOk_of_run hrun, ?_, ?_, ?_⟩
  · intro data t tag' n hlen h
    obtain ⟨p, fd, f, hfid, hbehind, hle, htake, hwrites⟩ := Dev.process_write hlen h
    refine ⟨f, fileOf_of_behind _ _ _ _ hexec hfid hbehind, hle, ?_⟩
    rw [← htake]
    exact writeKept_iff hwrites
  · intro data t tag' e hlen h
    exact Dev.process_write_error hlen h
  · intro count t tag' bs h
    obtain ⟨⟨p, fd, f, i, hfid, hbehind, hi, hbs⟩, hsame⟩ := Dev.process_read h
    refine ⟨⟨f, i, fileOf_of_behind _ _ _ _ hexec hfid hbehind, hi, hbs, ?_⟩, hsame⟩
    rw [hbs, List.length_take, List.length_drop]

/-- Attach fid 1 and create a file there, open for reading and writing. -/
def openActs : List Act :=
  [Act.process Dev.calmEnv ⟨0, .attach 1 0xffffffff [] (ascii ['s'])⟩, .put,
    .process Dev.calmEnv ⟨0, .create 1 (ascii ['a']) 0o644 2⟩, .put]

/-- What a request after some steps is answered, with file 0 before and after it. -/
def answered (acts : List Act) (r : TRequest) : Option (Bytes × Option RResponse × Bytes) :=
  (exec Loops.act shareLoops acts).bind fun s =>
    (s.dev.process Dev.calmEnv r).map fun x => (s.dev.host.data 0, x.2, x.1.host.data 0)

theorem exists_of_answered {acts : List Act} {r : TRequest} {old new : Bytes}
    {resp : Option RResponse} (h : answered acts r = some (old, resp, new)) :
    ∃ s t, exec Loops.act shareLoops acts = some s ∧
      s.dev.process Dev.calmEnv r = some (t, resp) ∧ s.dev.host.data 0 = old ∧
      t.host.data 0 = new := by
  obtain ⟨s, hs, hx⟩ := Option.bind_eq_some_iff.1 h
  obtain ⟨⟨t, resp'⟩, hp, heq⟩ := Option.map_eq_some_iff.1 hx
  obtain ⟨rfl, rfl, rfl⟩ : s.dev.host.data 0 = old ∧ resp' = resp ∧ t.host.data 0 = new := by
    simpa using heq
  exact ⟨s, t, hs, hp, rfl, rfl⟩

/-- A write of two bytes at offset 3 of the new file: three zeros, then the bytes. -/
theorem access_exact_gap : ∃ s t f,
    Run (Guarded (fun s a => s.cloneSafe a) fun s a t => s.act a = some t) shareLoops openActs s ∧
      s.dev.process Dev.calmEnv ⟨0, .write 1 3 [7, 8]⟩ = some (t, some ⟨0, .write 2⟩) ∧
      FileOf shareLoops openActs s.dev 1 f ∧ s.dev.Writes t f 3 [7, 8] := by
  have hrun : ∃ s, Run (Guarded (fun s a => s.cloneSafe a) fun s a t => s.act a = some t) shareLoops
      openActs s ∧ (s.dev.process Dev.calmEnv ⟨0, .write 1 3 [7, 8]⟩).map Prod.snd =
        some (some ⟨0, .write 2⟩) :=
    ⟨_, .tail (.tail (.tail (.tail .refl ⟨rfl, rfl⟩) ⟨rfl, rfl⟩) ⟨rfl, rfl⟩) ⟨rfl, rfl⟩,
      by decide +kernel⟩
  obtain ⟨s, hs, hresp⟩ := hrun
  obtain ⟨⟨t, resp⟩, hp, rfl⟩ := Option.map_eq_some_iff.1 hresp
  obtain ⟨f, hfile, -, hkept⟩ := (access_exact _ _ _ _ hs Dev.calmEnv 0 1 3).2.1 [7, 8] t 0 2
    (by decide) hp
  have hseeks : Dev.calmEnv.seeks 3 := by decide
  have hwrites := hkept.2 (.inl hseeks)
  rw [WriteKept, if_pos hseeks] at hwrites
  exact ⟨s, t, f, hs, hp, hfile, hwrites⟩

/-- Two bytes are written at offset 0, and then two at the offset `2 ^ 63`: the seek is rejected,
the answer is `RWrite`, and the bytes are behind the first two. -/
theorem write_ignores_rejected_seek : ∃ s t,
    exec Loops.act shareLoops
        (openActs ++ [.process Dev.calmEnv ⟨0, .write 1 0 [7, 8]⟩, .put]) = some s ∧
      s.dev.process Dev.calmEnv ⟨0, .write 1 0x8000000000000000 [1, 2]⟩ =
        some (t, some ⟨0, .write 2⟩) ∧
      s.dev.host.data 0 = [7, 8] ∧ t.host.data 0 = [7, 8, 1, 2] := by
  have hanswered : answered (openActs ++ [.process Dev.calmEnv ⟨0, .write 1 0 [7, 8]⟩, .put])
      ⟨0, .write 1 0x8000000000000000 [1, 2]⟩ =
        some ([7, 8], some ⟨0, .write 2⟩, [7, 8, 1, 2]) := by
    decide +kernel
  exact exists_of_answered hanswered

end Loops

end Ooows.P9
