import OpenCRun.Core.Command
import OpenCRun.Lib.Runs
/-!
# Commands lose no data

While the objects of a command are synchronised, the bytes that the command
will overwrite without reading them may go stale: those are the ones that the
invariant leaves out (`Overwritten`). An update that only writes is harmless if
it leaves no other byte of its region behind (`CallOk`); the queue's updates
always take whole objects, so that is what each step of a run has to meet.
-/
open Lib Lib.Tiling Lib.Replica Lib.Runs

namespace OpenCRun.CommandCoherency

open OpenCRun.Partition Coherency

variable {ctx : Context}

/-! ## What a command has to meet -/

/-- The command writes the byte of the main object, and does not read it. -/
def Overwritten (ops : List (Operand ctx × Access)) (i a : Nat) : Prop :=
  (∃ p ∈ ops, p.1.obj.root = i ∧ ∃ b, p.1.obj.part.offset + b = a ∧ p.2.writes b ≠ none) ∧
  ¬ ∃ p ∈ ops, p.1.obj.root = i ∧ ∃ b, p.1.obj.part.offset + b = a ∧ p.2.reads b = true

/-- The memory in which the command finds the main object's bytes. -/
def selected (ctx : Context) (m : Bool) (d i : Nat) : Loc := (ctx.obj i).selected { map := m } d

/-- A synchronisation has a mode, and one that only writes covers no byte but those that the command
overwrites, that were never written, or that the selected memory holds a valid copy of. -/
def CallOk (K : Nat → Nat → Prop) (m : Bool) (d : Nat) (w : Worlds) (op : Operand ctx) : Prop :=
  (op.mode.read = true ∨ op.mode.write = true) ∧
  (op.mode.read = false → ∀ a, op.obj.syncRegion.offset ≤ a → a < op.obj.syncRegion.stop →
    K op.obj.root a ∨ (w op.obj.root).latest a = none ∨
      selected ctx m d op.obj.root ∈ ((w op.obj.root).replica (ctx.obj op.obj.root)).valid a)

/-- Each call meets it in the state that the calls before it leave. -/
def CallsOk (K : Nat → Nat → Prop) (m : Bool) (d : Nat) : Worlds → List (Operand ctx) → Prop
  | _, [] => True
  | w, op :: ops => CallOk K m d w op ∧ CallsOk K m d (synchronizeFor d w op) ops

/-- The bytes a command uses of a sub-object are where its pointer says, and in its synchronised region. -/
def Placed (d : Nat) (p : Operand ctx × Access) : Prop :=
  ∀ b, p.2.uses b →
    p.1.pointer d = ((ctx.obj p.1.obj.root).selected p.1.mode d, p.1.obj.part.offset) ∧
    p.1.obj.syncRegion.offset ≤ p.1.obj.part.offset + b ∧ p.1.obj.part.offset + b < p.1.obj.syncRegion.stop

/-- The command maps its object. -/
def maps (cmd : Command ctx) : Bool := cmd.operands.any (·.mode.map)

def CommandOk {cmd : Command ctx} (ex : Execution cmd) (d : Nat) (w : Worlds) : Prop :=
  (∀ p ∈ ex.ops, Placed d p) ∧ CallsOk (Overwritten ex.ops) (maps cmd) d w cmd.operands

/-! ## The synchronisations of a command -/

theorem selected_eq {m : Bool} {d i : Nat} {mode : SynchronizeMode} (h : mode.map = m) :
    (ctx.obj i).selected mode d = selected ctx m d i := by
  simp [selected, MainObject.selected, deviceUpdate, h]

theorem maps_eq {cmd : Command ctx} {op : Operand ctx} (h : op ∈ cmd.operands) : op.mode.map = maps cmd := by
  obtain ⟨m, hm⟩ := cmd.operands_map
  have : maps cmd = m := by
    simp only [maps]
    cases m with
    | true => exact List.any_eq_true.2 ⟨op, h, hm op h⟩
    | false => simpa using hm
  rw [this, hm op h]

/-- What holds after some of the calls: all is coherent but the bytes of `K`, the regions that were
synchronised are fresh in the selected memory, and it alone is valid for those to be written. -/
structure During (K : Nat → Nat → Prop) (m : Bool) (d : Nat) (done : List (Operand ctx)) (w₀ w : Worlds) : Prop where
  wellFormed : ∀ i, WellFormed (ctx.size i) (w i).tracker.partition
  bounded : ∀ i, BitsBounded (ctx.obj i) (w i).tracker.partition
  latest : ∀ i, (w i).latest = (w₀ i).latest
  coherent : ∀ i a, a < ctx.size i → ¬ K i a → Coherent ((w i).replica (ctx.obj i)) a
  fresh : ∀ op ∈ done, ∀ a, op.obj.syncRegion.offset ≤ a → a < op.obj.syncRegion.stop → ¬ K op.obj.root a →
    HoldsLatest ((w op.obj.root).replica (ctx.obj op.obj.root)) (selected ctx m d op.obj.root) a
  only : ∀ op ∈ done, op.mode.write = true → ∀ a, op.obj.syncRegion.offset ≤ a → a < op.obj.syncRegion.stop →
    ((w op.obj.root).replica (ctx.obj op.obj.root)).valid a = {selected ctx m d op.obj.root}

variable {K : Nat → Nat → Prop} {m : Bool} {d : Nat} {done : List (Operand ctx)} {w₀ w : Worlds}

theorem synchronizeFor_self (d : Nat) (w : Worlds) (op : Operand ctx) :
    synchronizeFor d w op op.obj.root =
      (w op.obj.root).update (ctx.obj op.obj.root) op.obj.syncRegion op.mode d :=
  Function.update_self ..

theorem synchronizeFor_ne (d : Nat) (w : Worlds) {op : Operand ctx} {i : Nat} (hi : i ≠ op.obj.root) :
    synchronizeFor d w op i = w i :=
  Function.update_of_ne hi _ _

/-- The call as a synchronisation of the replicated memory of its main object. -/
theorem synchronizeFor_synced (h : During K m d done w₀ w) (hd : d < ctx.devices.length) (op : Operand ctx)
    (hm : op.mode.map = m) :
    let i := op.obj.root
    let r := op.obj.syncRegion
    let p := (w i).tracker.partition
    Synced ((w i).replica (ctx.obj i)) ((synchronizeFor d w op i).replica (ctx.obj i)) (selected ctx m d i)
      {a | TouchedByte p r.offset r.size a}
      {a | TouchedByte p r.offset r.size a ∧ (op.mode.read = true ∨ a < r.offset ∨ r.stop ≤ a)}
      (op.mode.write = true) := by
  intro i r p
  have hs := @updateRegion_synced (ctx.obj i) d (w i).tracker r op.mode (h.wellFormed i)
    (h.bounded i) hd (w i).latest
  rw [selected_eq hm] at hs
  rw [synchronizeFor_self]
  exact hs

section Step
variable (h : During K m d done w₀ w) (hd : d < ctx.devices.length) {op : Operand ctx} (hm : op.mode.map = m)
  (hok : CallOk K m d w op) {a : Nat}

include h

theorem During.touched (h1 : op.obj.syncRegion.offset ≤ a) (h2 : a < op.obj.syncRegion.stop) :
    TouchedByte (w op.obj.root).tracker.partition op.obj.syncRegion.offset op.obj.syncRegion.size a :=
  @touchedByte_of_mem (ctx.obj op.obj.root) _ (h.wellFormed _) op.obj.syncRegion a h1 h2

include hok

/-- The bytes of the region that a write-only update leaves behind are the latest already. -/
theorem During.left (ha : a < ctx.size op.obj.root) (hk : ¬ K op.obj.root a) (hr : op.mode.read = false)
    (h1 : op.obj.syncRegion.offset ≤ a) (h2 : a < op.obj.syncRegion.stop) :
    HoldsLatest ((w op.obj.root).replica (ctx.obj op.obj.root)) (selected ctx m d op.obj.root) a := by
  rcases (hok.2 hr a h1 h2).resolve_left hk with hn | hv
  · intro b hb
    simp only [World.replica, Tracker.replica, hn, reduceCtorEq] at hb
  · exact (h.coherent _ a ha hk).holds _ hv

include hd hm

theorem During.coherent_root (ha : a < ctx.size op.obj.root) (hk : ¬ K op.obj.root a) :
    Coherent ((synchronizeFor d w op op.obj.root).replica (ctx.obj op.obj.root)) a := by
  apply (synchronizeFor_synced h hd op hm).coherent (h.coherent _ a ha hk)
  intro ht
  by_cases hout : op.mode.read = true ∨ a < op.obj.syncRegion.offset ∨ op.obj.syncRegion.stop ≤ a
  · exact .inl ⟨ht, hout⟩
  · simp only [not_or, Bool.not_eq_true, not_lt, not_le] at hout
    exact .inr (h.left hok ha hk hout.1 hout.2.1 hout.2.2)

/-- The region is fresh in the selected memory. -/
theorem During.fresh_root (hk : ¬ K op.obj.root a) (h1 : op.obj.syncRegion.offset ≤ a)
    (h2 : a < op.obj.syncRegion.stop) :
    HoldsLatest ((synchronizeFor d w op op.obj.root).replica (ctx.obj op.obj.root)) (selected ctx m d op.obj.root) a := by
  have hs := synchronizeFor_synced h hd op hm
  have ha : a < ctx.size op.obj.root := lt_of_lt_of_le h2 op.obj.syncRegion.le
  by_cases hr : op.mode.read = true
  · exact hs.fresh (h.coherent _ a ha hk) ⟨h.touched h1 h2, .inl hr⟩
  · exact hs.keeps (h.coherent _ a ha hk) (h.left hok ha hk (by simpa using hr) h1 h2)

theorem During.step : During K m d (done ++ [op]) w₀ (synchronizeFor d w op) := by
  have hs := synchronizeFor_synced h hd op hm
  refine ⟨fun i => ?_, fun i => ?_, fun i => ?_, fun i a ha hk => ?_, fun op' hop a h1 h2 hk => ?_,
    fun op' hop hw a h1 h2 => ?_⟩
  -- Each part: the storage of the operand has been updated, the others are as they were.
  · by_cases hi : i = op.obj.root
    · subst hi
      rw [synchronizeFor_self]
      exact @updateRegion_wellFormed (ctx.obj _) _ (h.wellFormed _) _ _ _
    · rw [synchronizeFor_ne d w hi]
      exact h.wellFormed i
  · by_cases hi : i = op.obj.root
    · subst hi
      rw [synchronizeFor_self]
      exact @updateRegion_bounded (ctx.obj _) _ _ _ _ (h.wellFormed _) (h.bounded _) hd
    · rw [synchronizeFor_ne d w hi]
      exact h.bounded i
  · rw [← h.latest]
    by_cases hi : i = op.obj.root
    · subst hi
      rw [synchronizeFor_self]
      rfl
    · rw [synchronizeFor_ne d w hi]
  · by_cases hi : i = op.obj.root
    · subst hi
      exact h.coherent_root hd hm hok ha hk
    · rw [synchronizeFor_ne d w hi]
      exact h.coherent i a ha hk
  · rcases List.mem_append.1 hop with hop | hop
    · have hf := h.fresh op' hop a h1 h2 hk
      have ha : a < ctx.size op'.obj.root := lt_of_lt_of_le h2 op'.obj.syncRegion.le
      by_cases hi : op'.obj.root = op.obj.root
      · rw [hi] at hf hk ha ⊢
        exact hs.keeps (h.coherent _ a ha hk) hf
      · rw [synchronizeFor_ne d w hi]
        exact hf
    · obtain rfl := List.mem_singleton.1 hop
      exact h.fresh_root hd hm hok hk h1 h2
  · rcases List.mem_append.1 hop with hop | hop
    · have hv := h.only op' hop hw a h1 h2
      by_cases hi : op'.obj.root = op.obj.root
      · rw [hi] at hv ⊢
        ext l
        rw [hs.valid, hv]
        simp only [Set.mem_singleton_iff, Set.mem_ofPred_eq]
        tauto
      · rw [synchronizeFor_ne d w hi]
        exact hv
    · obtain rfl := List.mem_singleton.1 hop
      exact hs.valid_write hw (h.touched h1 h2)

end Step

theorem During.calls (hd : d < ctx.devices.length) (ops : List (Operand ctx)) (hm : ∀ op ∈ ops, op.mode.map = m)
    (h : During K m d done w₀ w) (hok : CallsOk K m d w ops) :
    During K m d (done ++ ops) w₀ (ops.foldl (synchronizeFor d) w) := by
  induction ops generalizing done w with
  | nil => simpa using h
  | cons op ops ih =>
    have h1 := ih (fun o ho => hm o (by simp [ho])) (h.step hd (hm op (by simp)) hok.1) hok.2
    simpa using h1

/-! ## The writes of a command -/

/-- One of the operands writes the byte of the main object. -/
def Pending (ops : List (Operand ctx × Access)) (i a : Nat) : Prop :=
  ∃ p ∈ ops, p.1.obj.root = i ∧ shift p.1.obj.part.offset p.2.writes a ≠ none

theorem shift_ne_none {base a : Nat} {values : Nat → Option UInt8} :
    shift base values a ≠ none ↔ ∃ b, base + b = a ∧ values b ≠ none := by
  unfold shift
  constructor
  · intro h
    split at h
    · exact ⟨a - base, by omega, h⟩
    · exact absurd rfl h
  · rintro ⟨b, rfl, hb⟩
    simpa using hb

theorem write_none (st : Storage) (dst : Loc) (bytes : Nat → Option UInt8) (h : ∀ a, bytes a = none) :
    st.write dst bytes = st := by
  unfold Storage.write
  congr
  funext l a
  simp [h]

/-- The writes of an operand in its place are writes of the selected copy. -/
theorem writeOperand_eq {p : Operand ctx × Access} (hp : Placed d p) (hm : p.1.mode.map = m) (w : Worlds) :
    writeOperand d w p = Function.update w p.1.obj.root
      ((w p.1.obj.root).write (selected ctx m d p.1.obj.root) (shift p.1.obj.part.offset p.2.writes)) := by
  unfold writeOperand World.write
  by_cases hw : ∃ b, p.2.writes b ≠ none
  · obtain ⟨b, hb⟩ := hw
    rw [(hp b (.inr hb)).1, selected_eq hm]
  · simp only [not_exists, not_not] at hw
    have hnone : ∀ base a, shift base p.2.writes a = none := fun base a => by simp [shift, hw]
    dsimp only
    rw [write_none _ _ _ (hnone _), write_none _ _ _ (hnone _)]

theorem writes_partition (ops : List (Operand ctx × Access)) (w : Worlds) (i : Nat) :
    (ops.foldl (writeOperand d) w i).tracker.partition = (w i).tracker.partition := by
  induction ops generalizing w with
  | nil => rfl
  | cons p ops ih =>
    rw [List.foldl_cons, ih]
    by_cases hi : i = p.1.obj.root
    · subst hi; simp [writeOperand]
    · simp [writeOperand, hi]

theorem writes_latest (ops : List (Operand ctx × Access)) (w : Worlds) {i a : Nat} (h : ¬ Pending ops i a) :
    (ops.foldl (writeOperand d) w i).latest a = (w i).latest a := by
  induction ops generalizing w with
  | nil => rfl
  | cons p ops ih =>
    rw [List.foldl_cons, ih _ fun ⟨q, hq, hr⟩ => h ⟨q, by simp [hq], hr⟩]
    by_cases hi : i = p.1.obj.root
    · subst hi
      have : shift p.1.obj.part.offset p.2.writes a = none := by
        by_contra hn
        exact h ⟨p, by simp, rfl, hn⟩
      simp [writeOperand, this]
    · simp [writeOperand, hi]

/-- Once all its writes are made, every byte is coherent. -/
theorem writes_coherent (ops : List (Operand ctx × Access)) (hp : ∀ p ∈ ops, Placed d p)
    (hm : ∀ p ∈ ops, p.1.mode.map = m) (w : Worlds)
    (hpend : ∀ i a, a < ctx.size i → Pending ops i a →
      ((w i).replica (ctx.obj i)).valid a = {selected ctx m d i})
    (hcoh : ∀ i a, a < ctx.size i → ¬ Pending ops i a → Coherent ((w i).replica (ctx.obj i)) a) :
    ∀ i a, a < ctx.size i → Coherent ((ops.foldl (writeOperand d) w i).replica (ctx.obj i)) a := by
  induction ops generalizing w with
  | nil => exact fun i a ha => hcoh i a ha (by simp [Pending])
  | cons p ops ih =>
    have hcons : ∀ i a, Pending (p :: ops) i a ↔
        (p.1.obj.root = i ∧ shift p.1.obj.part.offset p.2.writes a ≠ none) ∨ Pending ops i a := by
      intro i a
      simp [Pending]
    rw [List.foldl_cons, writeOperand_eq (hp p (by simp)) (hm p (by simp))]
    -- What was to be written by this operand is written; the rest is still to be written.
    refine ih (fun q hq => hp q (by simp [hq])) (fun q hq => hm q (by simp [hq])) _ (fun i a ha hpa => ?_)
      (fun i a ha hpa => ?_)
    · have hv := hpend i a ha ((hcons i a).2 (.inr hpa))
      by_cases hi : i = p.1.obj.root
      · subst hi
        simp only [Function.update_self]
        exact hv
      · simpa [hi] using hv
    · by_cases hi : i = p.1.obj.root
      · subst hi
        simp only [Function.update_self]
        exact write_coherent (s := (w _).replica (ctx.obj _))
          (fun hs => hpend _ a ha ((hcons _ a).2 (.inl ⟨rfl, hs⟩)))
          (fun hn => hcoh _ a ha fun h => ((hcons _ a).1 h).elim (fun h => h.2 hn) hpa)
      · simp only [Function.update_of_ne hi]
        exact hcoh i a ha fun h => ((hcons i a).1 h).elim (fun h => hi h.1.symm) hpa

/-! ## Runs of commands -/

/-- Every main object is coherent. -/
def Inv (ctx : Context) (w : Worlds) : Prop := ∀ i, Coherency.Inv (ctx.obj i) (w i)

theorem ensure_during {cmd : Command ctx} {ex : Execution cmd} (h : Inv ctx w) (hd : d < ctx.devices.length)
    (hok : CommandOk ex d w) :
    During (Overwritten ex.ops) (maps cmd) d cmd.operands w (ensureMemoryCoherency cmd d w) := by
  have h0 : During (Overwritten ex.ops) (maps cmd) d [] w w :=
    ⟨fun i => (h i).wellFormed, fun i => (h i).bounded, fun _ => rfl, fun i a ha _ => (h i).coherent a ha,
      by simp, by simp⟩
  exact During.calls hd cmd.operands (fun _ ho => maps_eq ho) h0 hok.2

theorem mem_operands {cmd : Command ctx} (ex : Execution cmd) {p : Operand ctx × Access} (hp : p ∈ ex.ops) :
    p.1 ∈ cmd.operands := ex.operands ▸ List.mem_map_of_mem hp

theorem callsOk_mode {ops : List (Operand ctx)} (h : CallsOk K m d w ops) :
    ∀ op ∈ ops, op.mode.read = true ∨ op.mode.write = true := by
  induction ops generalizing w with
  | nil => simp
  | cons op ops ih =>
    intro o ho
    rcases List.mem_cons.1 ho with rfl | ho
    · exact h.1.1
    · exact ih h.2 o ho

theorem execute_inv {cmd : Command ctx} {ex : Execution cmd} (h : Inv ctx w) (hd : d < ctx.devices.length)
    (hok : CommandOk ex d w) : Inv ctx (execute ex d w) := by
  have hdur := ensure_during h hd hok
  have hcoh := writes_coherent ex.ops (m := maps cmd) hok.1 (fun p hp => maps_eq (mem_operands ex hp))
    (ensureMemoryCoherency cmd d w) (fun i a _ hpa => ?_) (fun i a ha hpa => ?_)
  · refine fun i => ⟨?_, ?_, hcoh i⟩
    · simp only [execute, writes_partition]; exact hdur.wellFormed i
    · simp only [execute, writes_partition]; exact hdur.bounded i
  · obtain ⟨p, hp, rfl, hs⟩ := hpa
    obtain ⟨b, rfl, hb⟩ := shift_ne_none.1 hs
    have hop := mem_operands ex hp
    have hw := Command.operands_write hop (ex.allowed p hp b hb) (callsOk_mode hok.2 _ hop)
    obtain ⟨-, h1, h2⟩ := hok.1 p hp b (.inr hb)
    exact hdur.only p.1 hop hw _ h1 h2
  · apply hdur.coherent i a ha
    intro hover
    apply hpa
    obtain ⟨⟨p, hp, hr, hb⟩, -⟩ := hover
    exact ⟨p, hp, hr, shift_ne_none.2 hb⟩

inductive Event (ctx : Context) where
  | execute (cmd : Command ctx) (ex : Execution cmd) (d : Fin ctx.devices.length)
  | allocate (i idx : Nat)
  | openRegion (i : Nat) (r : Region (ctx.size i))

def step (w : Worlds) : Event ctx → Worlds
  | .execute _ ex d => execute ex d w
  | .allocate i idx => Function.update w i (@Coherency.step (ctx.obj i) (w i) (.allocate idx))
  | .openRegion i r => Function.update w i (@Coherency.step (ctx.obj i) (w i) (.openRegion r))

/-- Commands run one after the other, from new objects. -/
def system (ctx : Context) : System Worlds (Event ctx) where
  init w := ∃ st : Nat → Storage, w = fun i => initial (ctx.obj i) (st i)
  step w e w' := w' = step w e

def Meets (w : Worlds) : Event ctx → Prop
  | .execute _ ex d => CommandOk ex d w
  | _ => True

theorem inv_invariant (ctx : Context) : Invariant ((system ctx).meeting Meets) (Inv ctx) where
  init := by
    rintro w ⟨st, rfl⟩ i
    exact initial_inv (st i)
  step := by
    rintro w e w' h ⟨hm, rfl⟩ i
    cases e with
    | execute cmd ex d => exact execute_inv h d.isLt hm i
    | allocate j idx =>
      by_cases hi : i = j
      · subst hi; simpa [step] using step_inv (h i) (.allocate idx)
      · simpa [step, hi] using h i
    | openRegion j r =>
      by_cases hi : i = j
      · subst hi; simpa [step] using @step_inv (ctx.obj i) _ (h i) (.openRegion r)
      · simpa [step, hi] using h i

/-- In every run whose commands meet the condition, each command finds the latest value of every byte it
reads, and after it every valid copy of every object holds the latest bytes: those of the command
where it wrote, and those from before elsewhere. -/
theorem commands_keep_data (ctx : Context) (w : Worlds) (hw : Reachable ((system ctx).meeting Meets) w)
    (cmd : Command ctx) (ex : Execution cmd) (d : Fin ctx.devices.length) (hok : Meets w (.execute cmd ex d)) :
    (∀ p ∈ ex.ops, ∀ b, p.2.reads b = true →
      ∀ v, (w p.1.obj.root).latest (p.1.obj.part.offset + b) = some v →
        (ensureMemoryCoherency cmd d w p.1.obj.root).tracker.storage.mem (p.1.pointer d).1 ((p.1.pointer d).2 + b) = v) ∧
    (∀ i, ∀ c ∈ (execute ex d w i).tracker.partition, ∀ k ∈ c.validity, ∀ a, Contains offsetOf stopOf c a →
      ∀ v, (execute ex d w i).latest a = some v →
        (execute ex d w i).tracker.storage.mem ((ctx.obj i).copyLoc k) a = v) ∧
    (∀ i a, ¬ Pending ex.ops i a → (execute ex d w i).latest a = (w i).latest a) := by
  have hinv := (inv_invariant ctx).reachable hw
  have hdur := ensure_during hinv d.isLt hok
  refine ⟨fun p hp b hb v hv => ?_, fun i c hc k hk a ha v hv => ?_, fun i a hpa => ?_⟩
  · obtain ⟨hptr, h1, h2⟩ := hok.1 p hp b (.inl hb)
    have hop := mem_operands ex hp
    have hfresh := hdur.fresh p.1 hop _ h1 h2 fun hover => hover.2 ⟨p, hp, rfl, b, rfl, hb⟩
    rw [hptr, selected_eq (maps_eq hop)]
    apply hfresh v
    simpa only [World.replica, Tracker.replica, hdur.latest] using hv
  · have h := execute_inv hinv d.isLt hok i
    refine (h.coherent a (lt_of_lt_of_le ha.2 (h.wellFormed.tiles.mem hc).2.2)).holds _ ?_ v hv
    simp only [World.replica, Tracker.replica, h.wellFormed.validityAt_eq hc ha]
    exact mem_copies hk
  · rw [execute, writes_latest _ _ hpa, hdur.latest]

/-- Objects of four bytes on two devices, each with a storage of its own. -/
def fourBytes (flags : MemFlags) : Context := ⟨[.cpu, .cpu], fun _ => 4, fun _ => flags, Nat.two_pos, fun _ => Nat.succ_pos 3⟩

/-- A kernel with one buffer argument that writes some of its bytes and reads none. -/
def kernelWrite (flags : MemFlags) (values : Nat → Option UInt8) (h : ∀ b, values b ≠ none → b < 4)
    (hw : (.argument (.main 0) : Operand (fourBytes flags)).writable = true) :
    @Execution (fourBytes flags) (.ndRangeKernel [.bufferArg (some (.main 0))]) where
  ops := [(.argument (.main 0), ⟨fun _ => false, values⟩)]
  operands := rfl
  inside := by
    intro p hp b hb
    obtain rfl := List.mem_singleton.1 hp
    exact h b (hb.resolve_left (by simp))
  allowed := by
    intro p hp b _
    obtain rfl := List.mem_singleton.1 hp
    exact hw

/-- The value in every byte. -/
def everyByte (v : UInt8) (b : Nat) : Option UInt8 := if b < 4 then some v else none

/-- The value in the first byte. -/
def firstByte (v : UInt8) (b : Nat) : Option UInt8 := if b < 1 then some v else none

theorem everyByte_lt {v : UInt8} {b : Nat} (h : everyByte v b ≠ none) : b < 4 := by
  by_contra hb
  exact h (if_neg hb)

theorem firstByte_lt {v : UInt8} {b : Nat} (h : firstByte v b ≠ none) : b < 4 := by
  by_contra hb
  exact h (if_neg (by omega))

/-- New objects, with nothing in them. -/
def newObjects (flags : MemFlags) : Worlds := fun i => initial ((fourBytes flags).obj i) ⟨∅, fun _ _ => 0⟩

/-- A kernel that writes the first byte of a `ReadWrite` argument. -/
theorem commands_keep_data_readWrite :
    let ex := kernelWrite MemFlags.ReadWrite (firstByte 7) (fun _ => firstByte_lt) (by decide)
    ∀ i a, ¬ Pending ex.ops i a → (execute ex 0 (newObjects MemFlags.ReadWrite) i).latest a =
      (newObjects MemFlags.ReadWrite i).latest a := by
  intro ex
  have hok : CommandOk ex 0 (newObjects MemFlags.ReadWrite) := by
    refine ⟨fun p hp b hb => ?_, ⟨.inl (by decide), fun hr => absurd hr (by decide)⟩, trivial⟩
    obtain rfl := List.mem_singleton.1 hp
    have hlt : b < 4 := firstByte_lt (hb.resolve_left (by simp))
    exact ⟨by decide, Nat.zero_le _, by show 0 + b < 0 + 4; omega⟩
  exact (commands_keep_data (fourBytes MemFlags.ReadWrite) _ (.init ⟨fun _ => ⟨∅, fun _ _ => 0⟩, rfl⟩) _ ex
    ⟨0, by decide⟩ hok).2.2

/-- Two kernels write one `WriteOnly` buffer, each on a device of its own: the first every byte, the
second the first byte. The only valid copy then lacks the other bytes. -/
theorem write_only_kernel_loses :
    let w := newObjects MemFlags.WriteOnly
    let w := execute (kernelWrite MemFlags.WriteOnly (everyByte 1) (fun _ => everyByte_lt) (by decide)) 0 w
    let w := execute (kernelWrite MemFlags.WriteOnly (firstByte 2) (fun _ => firstByte_lt) (by decide)) 1 w
    (w 0).tracker.partition = [⟨0, 4, {1}⟩] ∧ (w 0).latest 2 = some 1 ∧
      (w 0).tracker.storage.mem (((fourBytes MemFlags.WriteOnly).obj 0).copyLoc 1) 2 = 0 := by
  decide

end OpenCRun.CommandCoherency
