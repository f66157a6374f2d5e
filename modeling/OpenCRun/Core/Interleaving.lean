import Mathlib.Logic.Function.Basic
import OpenCRun.Core.Frame
import OpenCRun.Lib.Runs
/-!
# Commands on parts of one object

`updateRegion` holds its lock in step 1 and in step 3 only, so the updates and
writes of several commands interleave: a command computes its chunks, transfers
them one by one, sets the bits, and then writes. Commands with regions apart
leave each other's bits and bytes alone as long as each step meets the
condition that the chunk after its region is settled.
-/
open Lib Lib.Tiling Lib.Runs

namespace OpenCRun.Interleaving

open OpenCRun.Partition OpenCRun.Frame

/-- A command's use of one object. -/
structure Access (obj : MainObject) where
  region : Region obj.size
  mode : SynchronizeMode
  device : Fin obj.devices.length

inductive Phase where
  | waiting
  | transferring (todo : List MemoryChunk)
  | running

structure Sys (ι : Type) where
  tracker : Tracker
  phase : ι → Phase

inductive Label (obj : MainObject) (ι : Type) where
  | compute (k : ι)
  | transfer (k : ι)
  | finish (k : ι)
  | write (k : ι) (bytes : Nat → Option UInt8)
  | allocate (idx : Nat)
  | openRegion (r : Region obj.size)

/-- The command that takes the step. -/
def Label.owner {obj : MainObject} {ι : Type} : Label obj ι → Option ι
  | compute k => some k
  | transfer k => some k
  | finish k => some k
  | write k _ => some k
  | allocate _ => none
  | openRegion _ => none

variable {obj : MainObject} {ι : Type} [DecidableEq ι] (acc : ι → Access obj)

/-- A command starts on a region that was opened before, and writes in its region only. -/
inductive Step : Sys ι → Label obj ι → Sys ι → Prop
  | compute (s : Sys ι) (k : ι) (h : s.phase k = .waiting)
      (hb : OnBoundaries s.tracker.partition (acc k).region) :
      Step s (.compute k)
        { s with
          phase := Function.update s.phase k (.transferring (computeChunksToTransfer s.tracker.partition
            (acc k).region.offset (acc k).region.size (acc k).mode).val) }
  | transfer (s : Sys ι) (k : ι) (c : MemoryChunk) (cs : List MemoryChunk) (h : s.phase k = .transferring (c :: cs)) :
      Step s (.transfer k)
        { tracker :=
            { s.tracker with storage := (transfer obj (acc k).mode (acc k).device s.tracker.storage c).val }
          phase := Function.update s.phase k (.transferring cs) }
  | finish (s : Sys ι) (k : ι) (h : s.phase k = .transferring []) :
      Step s (.finish k)
        { tracker := (updateBits obj s.tracker (acc k).region.offset (acc k).region.size (acc k).mode
            (acc k).device).val
          phase := Function.update s.phase k .running }
  | write (s : Sys ι) (k : ι) (bytes : Nat → Option UInt8) (h : s.phase k = .running)
      (hb : ∀ a, bytes a ≠ none → (acc k).region.offset ≤ a ∧ a < (acc k).region.stop) :
      Step s (.write k bytes)
        { s with
          tracker :=
            { s.tracker with
              storage := s.tracker.storage.write (obj.selected (acc k).mode (acc k).device) bytes } }
  | allocate (s : Sys ι) (idx : Nat) :
      Step s (.allocate idx) { s with tracker := { s.tracker with storage := s.tracker.storage.map idx } }
  | openRegion (s : Sys ι) (r : Region obj.size) :
      Step s (.openRegion r)
        { s with
          tracker := { s.tracker with partition := (addRegion s.tracker.partition r.offset r.size).val } }

/-- Any tracker, with no command started. -/
def system : System (Sys ι) (Label obj ι) where
  init s := WellFormed obj.size s.tracker.partition ∧ ∀ k, s.phase k = .waiting
  step := Step acc

/-- The chunk after the region is settled when its bits are read, and when they are set. -/
def Meets (s : Sys ι) : Label obj ι → Prop
  | .compute k => NextSelected s.tracker.partition (acc k).region (acc k).mode (acc k).device
  | .finish k => ∀ c ∈ s.tracker.partition, c.offset = (acc k).region.stop → (acc k).region.stop < obj.size →
      Settled obj s.tracker.storage.allocated (acc k).mode (acc k).device c.validity
  | _ => True

/-! ## The invariant -/

structure Inv (s : Sys ι) : Prop where
  wellFormed : WellFormed obj.size s.tracker.partition
  opened : ∀ k, s.phase k ≠ .waiting → OnBoundaries s.tracker.partition (acc k).region
  todo : ∀ k cs, s.phase k = .transferring cs → ∀ c ∈ cs, Inside (acc k).region c ∨
    c.validity = ∅ ∨ selectedBit obj (acc k).mode (acc k).device ∈ c.validity

variable {acc}

/-- A step that moves only the phase of one command. -/
theorem Inv.update {s : Sys ι} (h : Inv acc s) (k : ι) (ph : Phase)
    (ho : OnBoundaries s.tracker.partition (acc k).region)
    (ht : ∀ cs, ph = .transferring cs → ∀ c ∈ cs, Inside (acc k).region c ∨ c.validity = ∅ ∨
      selectedBit obj (acc k).mode (acc k).device ∈ c.validity) :
    Inv acc { s with phase := Function.update s.phase k ph } := by
  refine ⟨h.wellFormed, fun j hj => ?_, fun j cs hj => ?_⟩
  · by_cases hjk : j = k
    · exact hjk ▸ ho
    · simp only [Function.update_of_ne hjk] at hj
      exact h.opened j hj
  · by_cases hjk : j = k
    · subst hjk
      simp only [Function.update_self] at hj
      exact ht cs hj
    · simp only [Function.update_of_ne hjk] at hj
      exact h.todo j cs hj

theorem step_inv {s s' : Sys ι} {l : Label obj ι} (h : Inv acc s) (hm : Meets acc s l) (hs : Step acc s l s') :
    Inv acc s' := by
  cases hs with
  | compute k hw hb =>
    apply h.update k _ hb
    rintro cs ⟨⟩
    exact computed_inside h.wellFormed hb hm
  | transfer k c cs hp =>
    have h1 := h.update k (.transferring cs) (h.opened k (by simp [hp])) (by
      rintro cs' ⟨⟩ x hx
      exact h.todo k _ hp x (by simp [hx]))
    exact ⟨h1.wellFormed, h1.opened, h1.todo⟩
  | finish k hp =>
    have h1 := h.update k .running (h.opened k (by simp [hp])) (by rintro cs ⟨⟩)
    exact ⟨wellFormed_updateBits h.wellFormed _ _ _,
      fun j hj => (h1.opened j hj).mono fun _ => starts_updateBits h.wellFormed _, h1.todo⟩
  | write k bytes hp hb => exact ⟨h.wellFormed, h.opened, h.todo⟩
  | allocate idx => exact ⟨h.wellFormed, h.opened, h.todo⟩
  | openRegion r =>
    obtain ⟨wf, hst, -⟩ := addRegion_spec h.wellFormed r
    exact ⟨wf, fun k hk => (h.opened k hk).mono fun n hn => (hst n).2 (.inl hn), h.todo⟩

theorem inv_invariant : Invariant ((system acc).meeting (Meets acc)) (Inv acc) where
  init s hi := ⟨hi.1, fun k hk => absurd (hi.2 k) hk, fun k cs hk => by simp [hi.2 k] at hk⟩
  step s l s' h hs := step_inv h hs.1 hs.2

/-! ## Regions apart -/

def Apart (r r' : Region obj.size) : Prop := r.stop ≤ r'.offset ∨ r'.stop ≤ r.offset

/-- The region has the same bits and, in every memory, the same bytes. -/
def Untouched (r : Region obj.size) (t t' : Tracker) : Prop :=
  ∀ a, r.offset ≤ a → a < r.stop →
    validityAt t'.partition a = validityAt t.partition a ∧ ∀ l, t'.storage.mem l a = t.storage.mem l a

theorem step_untouched {s s' : Sys ι} {l : Label obj ι} (h : Inv acc s) (hm : Meets acc s l) (hs : Step acc s l s')
    (r : Region obj.size) (hr : ∀ j, l.owner = some j → Apart (acc j).region r) :
    Untouched r s.tracker s'.tracker := by
  intro a h1 h2
  have ha : a < obj.size := lt_of_lt_of_le h2 r.le
  have hout : ∀ j, l.owner = some j → a < (acc j).region.offset ∨ (acc j).region.stop ≤ a := by
    intro j hj
    have := hr j hj
    unfold Apart at this
    omega
  -- Only the transfer, the last step and the write touch bytes, and those of their own region.
  cases hs with
  | compute k hw hb => exact ⟨rfl, fun _ => rfl⟩
  | transfer k c cs hp =>
    refine ⟨rfl, fun l => ?_⟩
    rcases h.todo k _ hp c (by simp) with hi | hn
    · apply transfer_frame
      intro hc
      have := hi.1.trans hc.1
      have := lt_of_lt_of_le hc.2 hi.2
      have := hout k rfl
      omega
    · simp only [transfer_noop hn]
  | finish k hp =>
    refine ⟨updateBits_validityAt h.wellFormed (h.opened k (by simp [hp])) hm ha (hout k rfl), fun l => ?_⟩
    simp only [updateBits_val h.wellFormed]
  | write k bytes hp hb =>
    refine ⟨rfl, fun l => ?_⟩
    have hn : bytes a = none := by
      by_contra hne
      have := hb a hne
      have := hout k rfl
      omega
    simp [Storage.write, hn]
  | allocate idx => exact ⟨rfl, fun _ => rfl⟩
  | openRegion r' => exact ⟨(addRegion_spec h.wellFormed r').2.2.2.1 a ha, fun _ => rfl⟩

/-! ## The frame law -/

/-- A call of `updateRegion` on a region with both ends on boundaries keeps to it exactly when the chunk
that starts at its end is settled. And while each step of a run meets that condition, a step leaves
every region alone that its command's region is apart from, whatever steps came before. -/
theorem frame_law (obj : MainObject) :
    (∀ (t : Tracker) (r : Region obj.size) (mode : SynchronizeMode) (d : Fin obj.devices.length),
      WellFormed obj.size t.partition → OnBoundaries t.partition r →
      (Framed r t (updateRegion obj t r.offset r.size mode d).val ↔
        ∀ c ∈ t.partition, c.offset = r.stop → r.stop < obj.size →
          Settled obj (allocatedAfter obj t r mode d) mode d c.validity)) ∧
    (∀ (ι : Type) [DecidableEq ι] (acc : ι → Access obj) (s : Sys ι),
      Reachable ((system acc).meeting (Meets acc)) s →
      ∀ (l : Label obj ι) (s' : Sys ι), Meets acc s l → Step acc s l s' →
      ∀ r : Region obj.size, (∀ j, l.owner = some j → Apart (acc j).region r) → Untouched r s.tracker s'.tracker) :=
  ⟨fun _ _ _ _ h hr => updateRegion_framed_iff h hr,
    fun _ _ _ _ hs _ _ hm hstep r hr => step_untouched (inv_invariant.reachable hs) hm hstep r hr⟩

/-- Twelve bytes on two devices, each with a storage of its own. -/
def twelveBytes : MainObject := ⟨[.cpu, .cpu], 12, MemFlags.ReadWrite, Nat.two_pos, Nat.succ_pos 11⟩

def firstPart : Region twelveBytes.size := ⟨0, 4, by decide, Nat.le_add_right 4 8⟩

def secondPart : Region twelveBytes.size := ⟨4, 4, by decide, Nat.le_add_right 8 4⟩

/-- The object after both parts were opened. -/
def bothOpened : Tracker :=
  let t := initializeTracker twelveBytes ⟨∅, fun _ _ => 0⟩
  { t with partition := (addRegions t.partition [firstPart, secondPart]).val }

theorem bothOpened_wellFormed : WellFormed twelveBytes.size bothOpened.partition :=
  (addRegions_spec (initial_wellFormed twelveBytes ⟨∅, fun _ _ => 0⟩) [firstPart, secondPart]).1

/-- The first device has the second part and what follows it. -/
def secondOwned : Tracker := (updateBits twelveBytes bothOpened secondPart.offset secondPart.size .syncWrite 0).val

theorem secondOwned_partition : secondOwned.partition = [⟨0, 4, ∅⟩, ⟨4, 4, {0}⟩, ⟨8, 4, {0}⟩] := by decide

theorem secondOwned_wellFormed : WellFormed twelveBytes.size secondOwned.partition :=
  wellFormed_updateBits bothOpened_wellFormed secondPart .syncWrite 0

theorem secondOwned_onBoundaries : OnBoundaries secondOwned.partition firstPart :=
  ⟨by unfold Starts; decide, .inr (by unfold Starts; decide)⟩

/-- It writes the first part. -/
def firstWrite : Unit → Access twelveBytes := fun _ => ⟨firstPart, .syncWrite, ⟨0, by decide⟩⟩

def sevens (a : Nat) : Option UInt8 := if a < 4 then some 7 else none

/-- Before the write. -/
def firstSet : Sys Unit :=
  ⟨(updateBits twelveBytes
      { secondOwned with storage := (transfer twelveBytes .syncWrite 0 secondOwned.storage ⟨4, 4, {0}⟩).val }
      firstPart.offset firstPart.size .syncWrite 0).val,
    Function.update (Function.update (Function.update (fun _ => .waiting) () (.transferring [⟨4, 4, {0}⟩])) ()
      (.transferring [])) () .running⟩

/-- The chunk of the second part is computed, but it is valid where it would be transferred to. -/
theorem firstSet_reachable : Reachable ((system firstWrite).meeting (Meets firstWrite)) firstSet := by
  let s : Sys Unit := ⟨secondOwned, fun _ => .waiting⟩
  let s₁ : Sys Unit := { s with phase := Function.update s.phase () (.transferring [⟨4, 4, {0}⟩]) }
  let s₂ : Sys Unit :=
    ⟨{ secondOwned with storage := (transfer twelveBytes .syncWrite 0 secondOwned.storage ⟨4, 4, {0}⟩).val },
      Function.update s₁.phase () (.transferring [])⟩
  have hchunks : (computeChunksToTransfer secondOwned.partition firstPart.offset firstPart.size .syncWrite).val =
      [⟨4, 4, {0}⟩] := by decide
  have hnext : Meets firstWrite s (.compute ()) := by unfold Meets NextSelected; decide
  have hcompute : Step firstWrite s (.compute ()) s₁ := by
    have hstep : Step firstWrite s (.compute ()) _ := .compute s () rfl secondOwned_onBoundaries
    rwa [show (computeChunksToTransfer s.tracker.partition (firstWrite ()).region.offset (firstWrite ()).region.size
      (firstWrite ()).mode).val = _ from hchunks] at hstep
  have htransfer : Step firstWrite s₁ (.transfer ()) s₂ := .transfer s₁ () ⟨4, 4, {0}⟩ [] rfl
  have hsettled : Meets firstWrite s₂ (.finish ()) := by
    intro c hc hoffset _
    have hmem : c ∈ [⟨0, 4, ∅⟩, ⟨4, 4, {0}⟩, ⟨8, 4, {0}⟩] := secondOwned_partition ▸ hc
    rcases List.mem_cons.1 hmem with rfl | hmem
    · exact absurd hoffset (by decide)
    rcases List.mem_cons.1 hmem with rfl | hmem
    · exact settled_iff.2 (by decide)
    · rw [List.mem_singleton.1 hmem] at hoffset
      exact absurd hoffset (by decide)
  have hfinish : Step firstWrite s₂ (.finish ()) firstSet := .finish s₂ () rfl
  have hinit : Reachable ((system firstWrite).meeting (Meets firstWrite)) s := .init ⟨secondOwned_wellFormed, fun _ => rfl⟩
  have hcomputed : Reachable ((system firstWrite).meeting (Meets firstWrite)) s₁ := hinit.step ⟨hnext, hcompute⟩
  have htransferred : Reachable ((system firstWrite).meeting (Meets firstWrite)) s₂ :=
    hcomputed.step ⟨show Meets firstWrite s₁ (.transfer ()) from trivial, htransfer⟩
  exact htransferred.step ⟨hsettled, hfinish⟩

/-- The law for an update, and for a write after it. -/
theorem frame_law_firstWrite :
    (Framed firstPart secondOwned (updateRegion twelveBytes secondOwned 0 4 .syncWrite 0).val ↔
      ∀ c ∈ secondOwned.partition, c.offset = firstPart.stop → firstPart.stop < twelveBytes.size →
        Settled twelveBytes (allocatedAfter twelveBytes secondOwned firstPart .syncWrite 0) .syncWrite 0 c.validity) ∧
    ∃ s', Step firstWrite firstSet (.write () sevens) s' ∧ s'.tracker.storage.mem (.device 0) 0 = 7 ∧
      Untouched secondPart firstSet.tracker s'.tracker := by
  have hbytes : ∀ a, sevens a ≠ none → firstPart.offset ≤ a ∧ a < firstPart.stop := by
    intro a ha
    unfold sevens at ha
    split at ha
    · next hlt => exact ⟨Nat.zero_le a, hlt⟩
    · exact absurd rfl ha
  have hwrite : Step firstWrite firstSet (.write () sevens) _ := .write firstSet () sevens rfl hbytes
  refine ⟨(frame_law twelveBytes).1 secondOwned firstPart .syncWrite ⟨0, by decide⟩ secondOwned_wellFormed
    secondOwned_onBoundaries, _, hwrite, rfl, ?_⟩
  exact (frame_law twelveBytes).2 Unit firstWrite firstSet firstSet_reachable (.write () sevens) _ trivial hwrite
    secondPart fun _ _ => .inl (Nat.le_refl 4)

/-- The second device writes the second part; then the first device writes the first part. -/
def secondWritten : Tracker := (updateRegion twelveBytes bothOpened 4 4 .syncWrite 1).val

/-- The update of the first part takes the second part's bytes from the device that wrote them. -/
theorem frame_violated :
    OnBoundaries secondWritten.partition firstPart ∧
    secondWritten.partition = [⟨0, 4, ∅⟩, ⟨4, 4, {1}⟩, ⟨8, 4, {1}⟩] ∧
    (updateRegion twelveBytes secondWritten 0 4 .syncWrite 0).val.partition =
      [⟨0, 4, {0}⟩, ⟨4, 4, {0}⟩, ⟨8, 4, {1}⟩] ∧
    ¬ Framed firstPart secondWritten (updateRegion twelveBytes secondWritten 0 4 .syncWrite 0).val := by
  have before : secondWritten.partition = [⟨0, 4, ∅⟩, ⟨4, 4, {1}⟩, ⟨8, 4, {1}⟩] := by decide
  have after : (updateRegion twelveBytes secondWritten 0 4 .syncWrite 0).val.partition =
      [⟨0, 4, {0}⟩, ⟨4, 4, {0}⟩, ⟨8, 4, {1}⟩] := by decide
  refine ⟨⟨by rw [before]; unfold Starts; decide, .inr (by rw [before]; unfold Starts; decide)⟩, before, after, ?_⟩
  intro h
  have h1 := h.chunks 1 ⟨4, 4, {1}⟩ (by rw [before]; rfl) (by unfold Inside; decide)
  rw [after] at h1
  exact absurd h1 (by decide)

end OpenCRun.Interleaving
