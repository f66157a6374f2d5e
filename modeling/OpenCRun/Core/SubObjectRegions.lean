import OpenCRun.Core.SubObject
import OpenCRun.Device.MemoryDescriptor
/-!
# Where an object is

Three places say it. The tracker of the root is given the object's own offset,
the device's pointer gets the offset of its parent, and the object itself is
where the offsets of the whole chain lead.
-/
namespace OpenCRun.SubObjectRegions

open MemoryObject MemoryDescriptor

/-- The tracker and the device's pointer have the object's own bytes, and they are in the root. -/
structure Addressed (o : MemoryObject) : Prop where
  opened : ∀ offset size, o.openRegion offset size = (o.absoluteOrigin + offset, size)
  synchronized : o.synchronizeFor = (o.absoluteOrigin, o.getSize)
  regions : ∀ offset size, o.synchronizeRegionFor offset size = (o.absoluteOrigin + offset, size)
  pointer : ∀ storage st, (allocateStorage storage o st).val.1 =
    (rootStorage o.root storage st).1.map (· + o.absoluteOrigin)
  inside : o.absoluteOrigin + o.getSize ≤ o.root.size

/-- The tracker's range is right if the parent begins where the root does. -/
theorem synchronized_iff (o : MemoryObject) :
    o.synchronizeFor = (o.absoluteOrigin, o.getSize) ↔ o.parentOrigin = 0 := by
  rw [MemoryObject.synchronizeFor, regionOrigin_eq, o.absoluteOrigin_eq, Prod.mk.injEq]
  omega

theorem region_eq {o : MemoryObject} (h : o.parentOrigin = 0) (offset size : Nat) :
    (offset + o.regionOrigin, size) = (o.absoluteOrigin + offset, size) := by
  rw [regionOrigin_eq, o.absoluteOrigin_eq, h, Nat.zero_add, Nat.add_comm]

/-- The pointer is right if the object begins where its parent does. -/
theorem pointer_iff (o : MemoryObject) :
    (∀ storage st, (allocateStorage storage o st).val.1 =
      (rootStorage o.root storage st).1.map (· + o.absoluteOrigin)) ↔ o.getParentOffset = 0 := by
  constructor
  · intro h
    have h := h (some 0) initial
    rw [allocateStorage_eq] at h
    have hsome : (rootStorage o.root (some 0) initial).1.isSome = true := by
      unfold rootStorage
      split
      · rename_i hhost
        exact o.root.hostPtr_isSome hhost
      · rfl
    obtain ⟨base, hbase⟩ := Option.isSome_iff_exists.1 hsome
    rw [hbase, Option.map_some, Option.map_some, Option.some.injEq, o.absoluteOrigin_eq] at h
    omega
  · intro h storage st
    rw [allocateStorage_eq, o.absoluteOrigin_eq, h, Nat.add_zero]

/-- The tracker, the pointer and the chain agree on the bytes of an object, and the root has them, if
and only if the object begins where the root does and is not larger. -/
theorem addressed_iff (o : MemoryObject) : Addressed o ↔ o.absoluteOrigin = 0 ∧ o.getSize ≤ o.root.size := by
  constructor
  · intro h
    have hparent := (synchronized_iff o).1 h.synchronized
    have hown := (pointer_iff o).1 h.pointer
    have hzero : o.absoluteOrigin = 0 := by rw [o.absoluteOrigin_eq, hparent, hown]
    have := h.inside
    exact ⟨hzero, by omega⟩
  · rintro ⟨hzero, hsize⟩
    have hsum := o.absoluteOrigin_eq
    have hparent : o.parentOrigin = 0 := by omega
    have hown : o.getParentOffset = 0 := by omega
    exact ⟨region_eq hparent, (synchronized_iff o).2 hparent, region_eq hparent, (pointer_iff o).2 hown, by omega⟩

/-- The second half of 16 bytes, an image over the half, and an image of 32 bytes over the 16. -/
theorem halves_disagree : ∃ half image large : MemoryObject,
    half.synchronizeFor = (8, 8) ∧ (allocateStorage (some 64) half initial).val.1 = some 64 ∧
    image.synchronizeFor = (0, 8) ∧ (allocateStorage (some 64) image initial).val.1 = some 72 ∧
    large.root.size = 16 ∧ large.synchronizeFor = (0, 32) ∧
    ¬ Addressed half ∧ ¬ Addressed image ∧ ¬ Addressed large := by
  refine ⟨.buffer (.sub 1 (.main sixteen) 8 8 MemFlags.ReadWrite),
    .image1DBuffer 2 (.sub 1 (.main sixteen) 8 8 MemFlags.ReadWrite) 8 MemFlags.ReadWrite,
    .image1DBuffer 3 (.main sixteen) 32 MemFlags.ReadWrite, rfl, rfl, rfl, rfl, rfl, rfl, fun h => ?_, fun h => ?_,
    fun h => ?_⟩
  · exact absurd ((pointer_iff _).1 h.pointer) (Nat.succ_ne_zero 7)
  · exact absurd ((synchronized_iff _).1 h.synchronized) (Nat.succ_ne_zero 7)
  · exact absurd h.inside (by decide)

end OpenCRun.SubObjectRegions
