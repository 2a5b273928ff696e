/-
# `LibDrm.Gem.Ageing` — the reuse cache as queues ordered by time

An object that is released is put at the tail of its bucket with the time of its
release.  `drm_intel_gem_cleanup_bo_cache` frees the objects that have been there
for more than a second; it looks at the head of a bucket only, and it does nothing
at all if the time is that of the last clean-up.

| | needs |
| :-- | :-- |
| stopping at the first young object | the buckets are ordered by `free_time` |
| returning early | nothing that is cached was old at the last clean-up |

`Aged t s` says both for a clock that has got to `t`.  An object that is being
released, or was taken out for use, is off the buckets (`Queued`), which is all
that the cascade of a release needs (`boUnreferenceLockedTimed_queued`).  Every
clean call keeps `Aged` (`Call.run_aged`), and in a run of them with a clock that does
not go back each clean-up does what a full scan would (`cache_ages`).
-/
import LibDrm.Gem.Safety
import Mathlib.Data.List.TakeWhile

namespace LibDrm.Gem

open Walk CInt

/-- In a list along which a property stays true once it is, the front that fails is all that does. -/
theorem dropWhile_eq_filter {α : Type} {p : α → Bool} {l : List α}
    (h : l.Pairwise fun a b => p a = true → p b = true) : l.dropWhile (fun a => !p a) = l.filter p := by
  induction h with
  | nil => rfl
  | @cons a l hal _ ih =>
      cases hp : p a with
      | false => simp only [List.dropWhile_cons, List.filter_cons, hp, Bool.not_false, if_true, Bool.false_eq_true,
          if_false, ih]
      | true =>
          have hall : l.filter p = l := List.filter_eq_self.mpr fun b hb => hal b hb hp
          simp only [List.dropWhile_cons, List.filter_cons, hp, Bool.not_true, Bool.false_eq_true, if_false, if_true, hall]

/-! ## The invariant -/

/-- The buckets are in the order of release, nothing was released after `t`, and nothing that is
cached was old when the cache was last cleaned up. -/
structure Aged (t : Int) (s : Bufmgr) : Prop where
  sorted : ∀ i, (s.bucketHead i).Pairwise fun a b => (s.bos a).freeTime ≤ (s.bos b).freeTime
  past : ∀ i, ∀ b ∈ s.bucketHead i, (s.bos b).freeTime ≤ t
  young : ∀ i, ∀ b ∈ s.bucketHead i, s.time - (s.bos b).freeTime ≤ 1
  time : s.time ≤ t

/-- The cache is aged, its objects are distinct and released, and the objects `X` are off it. -/
structure Queued (t : Int) (X : List BoId) (s : Bufmgr) : Prop extends Aged t s where
  nodup : ∀ i, (s.bucketHead i).Nodup
  unique : ∀ i j b, b ∈ s.bucketHead i → b ∈ s.bucketHead j → i = j
  index : ∀ i, ∀ b ∈ s.bucketHead i, i < cacheBucketSizes.length
  old : ∀ i, ∀ b ∈ s.bucketHead i, (s.bos b).refcount = 0 ∧ b < s.nextBo
  fresh : ∀ b, s.nextBo ≤ b → (s.bos b).refcount = 0
  off : ∀ b ∈ X, (s.bos b).refcount = 0 ∧ b < s.nextBo ∧ ∀ i, b ∉ s.bucketHead i

theorem Aged.later {t t' : Int} {s : Bufmgr} (h : Aged t s) (ht : t ≤ t') : Aged t' s :=
  ⟨h.sorted, fun i b hb => (h.past i b hb).trans ht, h.young, h.time.trans ht⟩

theorem Aged.same {t : Int} {s s' : Bufmgr} (h : Aged t s) (hbucket : s'.bucketHead = s.bucketHead)
    (htime : s'.time = s.time) (hfree : ∀ c, (s'.bos c).freeTime = (s.bos c).freeTime) : Aged t s' := by
  refine ⟨fun i => ?_, fun i b => ?_, fun i b => ?_, htime.trans_le h.time⟩
  · simp only [hbucket, hfree]
    exact h.sorted i
  · rw [hbucket, hfree]
    exact h.past i b
  · rw [hbucket, hfree, htime]
    exact h.young i b

theorem Aged.modify {t : Int} {s : Bufmgr} (h : Aged t s) (b : BoId) {f : Bo → Bo}
    (hf : (f (s.bos b)).freeTime = (s.bos b).freeTime) : Aged t (s.modify b f) :=
  h.same rfl rfl fun c => modify_field Bo.freeTime s b c hf

/-- Neither the cache nor what it depends on has changed. -/
structure Still (s s' : Bufmgr) : Prop where
  bucketHead : s'.bucketHead = s.bucketHead
  time : s'.time = s.time
  nextBo : s'.nextBo = s.nextBo
  freeTime : ∀ c, (s'.bos c).freeTime = (s.bos c).freeTime
  refcount : ∀ c, (s'.bos c).refcount = (s.bos c).refcount

namespace Still

variable {s s' s'' : Bufmgr}

theorem refl (s : Bufmgr) : Still s s := ⟨rfl, rfl, rfl, fun _ => rfl, fun _ => rfl⟩

theorem trans (h₁ : Still s s') (h₂ : Still s' s'') : Still s s'' :=
  ⟨h₂.bucketHead.trans h₁.bucketHead, h₂.time.trans h₁.time, h₂.nextBo.trans h₁.nextBo,
    fun c => (h₂.freeTime c).trans (h₁.freeTime c), fun c => (h₂.refcount c).trans (h₁.refcount c)⟩

theorem modify (s : Bufmgr) (b : BoId) {f : Bo → Bo} (hf : (f (s.bos b)).freeTime = (s.bos b).freeTime)
    (hr : (f (s.bos b)).refcount = (s.bos b).refcount) : Still s (s.modify b f) :=
  ⟨rfl, rfl, rfl, fun c => modify_field Bo.freeTime s b c hf, fun c => modify_field Bo.refcount s b c hr⟩

theorem setLock (s : Bufmgr) (l : Bool) : Still s { s with lock := l } := ⟨rfl, rfl, rfl, fun _ => rfl, fun _ => rfl⟩

theorem setKernel (s : Bufmgr) (k : Kernel) : Still s { s with kernel := k } :=
  ⟨rfl, rfl, rfl, fun _ => rfl, fun _ => rfl⟩

end Still

/-- What the work under the lock leaves, whoever had the lock. -/
theorem locked_ensures {s : Bufmgr} {f : Bufmgr → Except Fault Bufmgr} {Q : Bufmgr → Prop}
    (hf : Ensures (f { s with lock := true }) fun s' => Q { s' with lock := false }) : Ensures (s.locked f) Q := by
  unfold Bufmgr.locked
  split
  · exact .error
  · exact hf.bind fun s' hs' => .pure hs'

theorem withLock_ensures {α : Type} {s : Bufmgr} {f : Bufmgr → Except Fault (α × Bufmgr)} {Q : α × Bufmgr → Prop}
    (hf : Ensures (f { s with lock := true }) fun r => Q (r.1, { r.2 with lock := false })) :
    Ensures (s.withLock f) Q := by
  unfold Bufmgr.withLock
  split
  · exact .error
  · exact hf.bind fun r hr => .pure hr

namespace Queued

variable {t t' : Int} {X : List BoId} {s s' : Bufmgr} {b : BoId}

theorem still (h : Queued t X s) (hs : Still s s') : Queued t X s' where
  toAged := h.toAged.same hs.bucketHead hs.time hs.freeTime
  nodup := by rw [hs.bucketHead]; exact h.nodup
  unique := by rw [hs.bucketHead]; exact h.unique
  index := by rw [hs.bucketHead]; exact h.index
  old i c hc := by
    rw [hs.bucketHead] at hc
    rw [hs.refcount, hs.nextBo]
    exact h.old i c hc
  fresh c hc := by
    rw [hs.nextBo] at hc
    rw [hs.refcount]
    exact h.fresh c hc
  off c hc := by
    rw [hs.bucketHead, hs.refcount, hs.nextBo]
    exact h.off c hc

/-- A live object is off the buckets. -/
theorem notMem (h : Queued t X s) (hb : 0 < (s.bos b).refcount) (i : Nat) : b ∉ s.bucketHead i := fun hin => by
  have := (h.old i b hin).1
  omega

theorem lt_nextBo (h : Queued t X s) (hb : 0 < (s.bos b).refcount) : b < s.nextBo := by
  by_contra hge
  have := h.fresh b (not_lt.mp hge)
  omega

/-- An object that is off the buckets is written to; it may be a new one. -/
theorem write {X' : List BoId} (h : Queued t X s) (hoff : ∀ i, b ∉ s.bucketHead i)
    (hbos : ∀ c, c ≠ b → s'.bos c = s.bos c) (hbucket : s'.bucketHead = s.bucketHead) (htime : s'.time = s.time)
    (hnext : s.nextBo ≤ s'.nextBo) (hb : b < s'.nextBo)
    (hX : ∀ c ∈ X', (c ≠ b ∧ c ∈ X) ∨ (c = b ∧ (s'.bos b).refcount = 0)) : Queued t X' s' := by
  have hmem : ∀ {i c}, c ∈ s.bucketHead i → s'.bos c = s.bos c := fun {i c} hc => hbos c fun e => hoff i (e ▸ hc)
  refine ⟨⟨fun i => ?_, fun i c hc => ?_, fun i c hc => ?_, htime.trans_le h.time⟩, ?_, ?_, ?_, fun i c hc => ?_,
    fun c hc => ?_, fun c hc => ?_⟩
  · rw [hbucket]
    exact (h.sorted i).imp_of_mem fun ha hc hac => by rwa [hmem ha, hmem hc]
  · rw [hbucket] at hc
    rw [hmem hc]
    exact h.past i c hc
  · rw [hbucket] at hc
    rw [hmem hc, htime]
    exact h.young i c hc
  · rw [hbucket]; exact h.nodup
  · rw [hbucket]; exact h.unique
  · rw [hbucket]; exact h.index
  · rw [hbucket] at hc
    rw [hmem hc]
    exact ⟨(h.old i c hc).1, lt_of_lt_of_le (h.old i c hc).2 hnext⟩
  · rw [hbos c (lt_of_lt_of_le hb hc).ne']
    exact h.fresh c (hnext.trans hc)
  · rw [hbucket]
    rcases hX c hc with ⟨hcb, hcX⟩ | ⟨rfl, h0⟩
    · rw [hbos c hcb]
      obtain ⟨h0, hlt, hno⟩ := h.off c hcX
      exact ⟨h0, lt_of_lt_of_le hlt hnext, hno⟩
    · exact ⟨h0, hb, hoff⟩

/-- A reference is dropped and others remain. -/
theorem drop (h : Queued t X s) (hb : 0 < (s.bos b).refcount) : Queued t X (s.modify b Bo.decRef) := by
  refine h.write (h.notMem hb) (fun c hc => modify_of_ne s hc _) rfl rfl le_rfl (h.lt_nextBo hb) fun c hc => .inl ⟨?_, hc⟩
  rintro rfl
  have := (h.off c hc).1
  omega

/-- The last reference is dropped. -/
theorem die (h : Queued t X s) (hb : (s.bos b).refcount = 1) : Queued t (b :: X) (s.modify b Bo.decRef) := by
  have hpos : 0 < (s.bos b).refcount := by omega
  refine h.write (h.notMem hpos) (fun c hc => modify_of_ne s hc _) rfl rfl le_rfl (h.lt_nextBo hpos) fun c hc => ?_
  by_cases hcb : c = b
  · refine .inr ⟨hcb, ?_⟩
    rw [modify_self]
    show (s.bos b).refcount - 1 = 0
    omega
  · exact .inl ⟨hcb, (List.mem_cons.mp hc).resolve_left hcb⟩

/-- Objects leave a bucket. -/
theorem shrink (h : Queued t X s) {i : Nat} {l : List BoId} (hl : l.Sublist (s.bucketHead i)) :
    Queued t X (s.setBucket i l) := by
  have hsub : ∀ j, ((s.setBucket i l).bucketHead j).Sublist (s.bucketHead j) := fun j => by
    simp only [Bufmgr.setBucket, Function.update_apply]
    split
    · rename_i hji
      rw [hji]
      exact hl
    · exact List.Sublist.refl _
  have hmem : ∀ {j c}, c ∈ (s.setBucket i l).bucketHead j → c ∈ s.bucketHead j := fun {j c} hc => (hsub j).subset hc
  exact ⟨⟨fun j => (h.sorted j).sublist (hsub j), fun j c hc => h.past j c (hmem hc), fun j c hc => h.young j c (hmem hc),
    h.time⟩, fun j => (h.nodup j).sublist (hsub j), fun j k c hj hk => h.unique j k c (hmem hj) (hmem hk),
    fun j c hc => h.index j c (hmem hc), fun j c hc => h.old j c (hmem hc), h.fresh, fun c hc =>
      ⟨(h.off c hc).1, (h.off c hc).2.1, fun j hin => (h.off c hc).2.2 j (hmem hin)⟩⟩

/-- An object is taken off its bucket. -/
theorem dequeue (h : Queued t X s) {i : Nat} {l : List BoId} (hl : l.Sublist (s.bucketHead i))
    (hb : b ∈ s.bucketHead i) (hbl : b ∉ l) : Queued t (b :: X) (s.setBucket i l) := by
  refine { h.shrink hl with off := fun c hc => ?_ }
  rcases List.mem_cons.mp hc with rfl | hc
  · refine ⟨(h.old i c hb).1, (h.old i c hb).2, fun j hin => ?_⟩
    simp only [Bufmgr.setBucket, Function.update_apply] at hin
    split at hin
    · exact hbl hin
    · rename_i hji
      exact hji (h.unique j i c hin hb)
  · exact (h.shrink hl).off c hc

/-- The object goes to the tail of a bucket. -/
theorem enqueue (h : Queued t (b :: X) s) (hbX : b ∉ X) {i : Nat} (hi : i < cacheBucketSizes.length) :
    Queued t X ((s.modify b (Bo.toCache t)).setBucket i (s.bucketHead i ++ [b])) := by
  obtain ⟨h0, hlt, hoff⟩ := h.off b (List.mem_cons_self ..)
  have hwrite : Queued t X (s.modify b (Bo.toCache t)) := by
    refine h.write hoff (fun c hc => modify_of_ne s hc _) rfl rfl le_rfl hlt fun c hc => .inl ⟨?_, List.mem_cons_of_mem _ hc⟩
    rintro rfl
    exact hbX hc
  have hself : ((s.modify b (Bo.toCache t)).bos b).freeTime = t := by rw [modify_self]; rfl
  have hself0 : ((s.modify b (Bo.toCache t)).bos b).refcount = 0 := by rw [modify_self]; exact h0
  -- what is on a bucket now was on it before, or is the object
  have hmem : ∀ {j c}, c ∈ ((s.modify b (Bo.toCache t)).setBucket i (s.bucketHead i ++ [b])).bucketHead j →
      c ∈ s.bucketHead j ∨ (c = b ∧ j = i) := fun {j c} hc => by
    simp only [Bufmgr.setBucket, Function.update_apply] at hc
    split at hc
    · rename_i hji
      rw [hji]
      exact (List.mem_append.mp hc).imp_right fun hc => ⟨List.mem_singleton.mp hc, rfl⟩
    · exact .inl hc
  refine ⟨⟨fun j => ?_, fun j c hc => ?_, fun j c hc => ?_, h.time⟩, fun j => ?_, fun j k c hj hk => ?_, fun j c hc => ?_,
    fun j c hc => ?_, hwrite.fresh, fun c hc => ⟨(hwrite.off c hc).1, (hwrite.off c hc).2.1, fun j hin => ?_⟩⟩
  · simp only [Bufmgr.setBucket, Function.update_apply]
    split
    · refine List.pairwise_append.mpr ⟨hwrite.sorted i, List.pairwise_singleton .., fun a ha c hc => ?_⟩
      rw [List.mem_singleton.mp hc, hself]
      exact hwrite.past i a ha
    · exact hwrite.sorted j
  · rcases hmem hc with hc | ⟨rfl, -⟩
    · exact hwrite.past j c hc
    · exact hself.le
  · rcases hmem hc with hc | ⟨rfl, -⟩
    · exact hwrite.young j c hc
    · have := h.time
      show s.time - ((s.modify c (Bo.toCache t)).bos c).freeTime ≤ 1
      rw [hself]
      omega
  · simp only [Bufmgr.setBucket, Function.update_apply]
    split
    · refine List.nodup_append.mpr ⟨h.nodup i, List.nodup_singleton b, fun a ha c hc => ?_⟩
      rw [List.mem_singleton.mp hc]
      rintro rfl
      exact hoff i ha
    · exact h.nodup j
  · rcases hmem hj with hold | ⟨rfl, rfl⟩
    · rcases hmem hk with hold' | ⟨rfl, -⟩
      · exact h.unique j k c hold hold'
      · exact absurd hold (hoff j)
    · rcases hmem hk with hold' | ⟨-, rfl⟩
      · exact absurd hold' (hoff k)
      · rfl
  · rcases hmem hc with hc | ⟨-, rfl⟩
    · exact h.index j c hc
    · exact hi
  · rcases hmem hc with hc | ⟨rfl, -⟩
    · exact hwrite.old j c hc
    · exact ⟨hself0, hlt⟩
  · rcases hmem hin with hin | ⟨rfl, -⟩
    · exact (hwrite.off c hc).2.2 j hin
    · exact hbX hc

end Queued

/-! ## The release of objects -/

theorem purgeLoop_still (limit : Int) : ∀ (k : Nat) (s : Bufmgr), Ensures (purgeLoop limit k s) (Still s)
  | 0, _ => .error
  | k + 1, s => by
      unfold purgeLoop
      split
      · split
        · rename_i b _
          refine .bind_any fun _ => .bind_any fun m => ?_
          have h₁ : Still s { s.modify b Bo.unmapAll with vmaList := m, vmaCount := s.vmaCount - (s.bos b).maps } :=
            (Still.modify s b rfl rfl).trans ⟨rfl, rfl, rfl, fun _ => rfl, fun _ => rfl⟩
          exact (purgeLoop_still limit k _).mono fun _ h => h₁.trans h
        · exact .error
      · exact .ok (Still.refl s)

theorem boCloseVma_still (b : BoId) (s : Bufmgr) : Ensures (boCloseVma b s) (Still s) := by
  refine .bind_any fun m => ?_
  unfold boPurgeVmaCache
  split
  · exact .ok ⟨rfl, rfl, rfl, fun _ => rfl, fun _ => rfl⟩
  · exact (purgeLoop_still _ _ _).mono fun _ h => ⟨h.bucketHead, h.time, h.nextBo, h.freeTime, h.refcount⟩

section Release

variable {t : Int} {X : List BoId} {s : Bufmgr} {b : BoId} {madv : Madvise}

/-- What is left of an object that was freed. -/
theorem boFree_fields (b : BoId) (s : Bufmgr) : Ensures (boFree b s) fun s' => s'.bos = Function.update s.bos b {}
    ∧ s'.bucketHead = s.bucketHead ∧ s'.time = s.time ∧ s'.nextBo = s.nextBo :=
  .bind_any fun _ => .pure ⟨rfl, rfl, rfl, rfl⟩

theorem boFree_queued (h : Queued t (b :: X) s) : Ensures (boFree b s) (Queued t X) := by
  obtain ⟨-, hlt, hoff⟩ := h.off b (List.mem_cons_self ..)
  refine (boFree_fields b s).mono fun s' hs' => ?_
  obtain ⟨hbos, hbucket, htime, hnext⟩ := hs'
  refine h.write hoff (fun c hc => by rw [hbos, Function.update_of_ne hc]) hbucket htime hnext.ge (hnext.symm ▸ hlt)
    fun c hc => ?_
  by_cases hcb : c = b
  · exact .inr ⟨hcb, by rw [hbos, Function.update_self]⟩
  · exact .inl ⟨hcb, List.mem_cons_of_mem _ hc⟩

theorem boCacheOrFree_queued (h : Queued t (b :: X) s) (hbX : b ∉ X) :
    Ensures (boCacheOrFree madv t b s) (Queued t X) := by
  unfold boCacheOrFree
  split
  · rename_i i hi
    split
    · obtain ⟨z, hz, -⟩ := boBucketForSize_eq hi
      exact .ok (h.enqueue hbX (List.getElem?_eq_some_iff.mp hz).1)
    · exact boFree_queued h
  · exact boFree_queued h

theorem boRetire_queued (h : Queued t (b :: X) s) (hbX : b ∉ X) : Ensures (boRetire madv t b s) (Queued t X) := by
  have h₁ : Still s (s.modify b Bo.clearRelocs) := Still.modify s b rfl rfl
  refine Ensures.bind (P := Still s) ?_ fun s₁ hs₁ => .bind_any fun m => ?_
  · simp only [boUnlink]
    split
    · exact (boCloseVma_still b _).mono fun _ h => (h₁.trans (Still.modify _ b rfl rfl)).trans h
    · exact .ok h₁
  · exact boCacheOrFree_queued (h.still (hs₁.trans ⟨rfl, rfl, rfl, fun _ => rfl, fun _ => rfl⟩)) hbX

theorem boUnreferenceFinal_queued {unref : BoId → Bufmgr → Except Fault Bufmgr}
    (hunref : ∀ {c Y s}, Queued t Y s → Ensures (unref c s) (Queued t Y)) (h : Queued t X s)
    (hb : (s.bos b).refcount = 1) : Ensures (boUnreferenceFinal unref madv t b (s.modify b Bo.decRef)) (Queued t X) := by
  have hbX : b ∉ X := fun hin => by
    have := (h.off b hin).1
    omega
  refine Ensures.bind (P := Queued t (b :: X)) (.foldlM (h.die hb) fun s₁ c h₁ => ?_) fun s₁ h₁ => boRetire_queued h₁ hbX
  split
  · exact .ok h₁
  · exact hunref h₁

theorem boUnreferenceLockedTimed_queued : ∀ (k : Nat) {b : BoId} {X : List BoId} {s : Bufmgr}, Queued t X s →
    Ensures (boUnreferenceLockedTimed madv t k b s) (Queued t X)
  | 0, _, _, _, _ => .error
  | k + 1, b, X, s, h => by
      unfold boUnreferenceLockedTimed
      cases hpos : decide (0 < (s.bos b).refcount) with
      | false => exact .error
      | true =>
          rw [assert_true, ok_bind]
          split
          · rename_i h1
            exact boUnreferenceFinal_queued (fun h => boUnreferenceLockedTimed_queued k h) h h1
          · exact .ok (h.drop (of_decide_eq_true hpos))

/-- What the loop over the front of a bucket does: the stale objects at the front are freed. -/
structure FrontFreed (stale : BoId → Bo → Bool) (i : Nat) (l : List BoId) (s s' : Bufmgr) : Prop where
  bucketHead : s'.bucketHead = Function.update s.bucketHead i (l.dropWhile fun b => stale b (s.bos b))
  freed : ∀ c ∈ l.takeWhile fun b => stale b (s.bos b), s'.bos c = {}
  others : ∀ c, c ∉ l.takeWhile (fun b => stale b (s.bos b)) → s'.bos c = s.bos c
  time : s'.time = s.time

theorem dropStale_queued (stale : BoId → Bo → Bool) (i : Nat) : ∀ (l : List BoId) {s : Bufmgr}, s.bucketHead i = l →
    Queued t X s → Ensures (dropStale stale i l s) fun s' => Queued t X s' ∧ FrontFreed stale i l s s'
  | [], s, hl, h => by
      refine .ok ⟨h, ?_, nofun, fun _ _ => rfl, rfl⟩
      rw [List.dropWhile_nil, ← hl, Function.update_eq_self]
  | b :: l, s, hl, h => by
      unfold dropStale
      have hbl : b ∉ l := (List.nodup_cons.mp (hl ▸ h.nodup i)).1
      split
      · rename_i hst
        have htaken : Queued t (b :: X) (s.setBucket i l) :=
          h.dequeue (hl ▸ List.sublist_cons_self b l) (hl ▸ List.mem_cons_self ..) hbl
        refine ((boFree_queued htaken).and (boFree_fields b _)).bind fun s₁ hs₁ => ?_
        obtain ⟨h₁, hbos₁, hbucket₁, htime₁, -⟩ := hs₁
        have hl₁ : s₁.bucketHead i = l := by
          rw [hbucket₁]
          exact Function.update_self ..
        have hothers₁ : ∀ c, c ≠ b → s₁.bos c = s.bos c := fun c hc => by
          rw [hbos₁]
          exact Function.update_of_ne hc _ _
        have hstale : ∀ c ∈ l, stale c (s₁.bos c) = stale c (s.bos c) := fun c hc => by
          rw [hothers₁ c fun e => hbl (e ▸ hc)]
        obtain ⟨htake, hdrop⟩ := takeWhile_congr hstale
        refine (dropStale_queued stale i l hl₁ h₁).mono fun s₂ hs₂ => ?_
        obtain ⟨h₂, hbucket₂, hfreed₂, hothers₂, htime₂⟩ := hs₂
        rw [htake] at hfreed₂ hothers₂
        rw [hdrop] at hbucket₂
        refine ⟨h₂, ?_, fun c hc => ?_, fun c hc => ?_, htime₂.trans htime₁⟩
        · rw [hbucket₂, hbucket₁, List.dropWhile_cons, if_pos hst]
          exact Function.update_idem ..
        · rw [List.takeWhile_cons, if_pos hst] at hc
          rcases List.mem_cons.mp hc with rfl | hc
          · rw [hothers₂ c fun hin => hbl ((List.takeWhile_prefix _).subset hin), hbos₁, Function.update_self]
          · exact hfreed₂ c hc
        · rw [List.takeWhile_cons, if_pos hst, List.mem_cons, not_or] at hc
          rw [hothers₂ c hc.2, hothers₁ c hc.1]
      · rename_i hst
        refine .ok ⟨h, ?_, fun c hc => ?_, fun _ _ => rfl, rfl⟩
        · rw [List.dropWhile_cons, if_neg hst, ← hl, Function.update_eq_self]
        · rw [List.takeWhile_cons, if_neg hst] at hc
          cases hc

/-- The clean-up at `t`: the objects that have been cached for more than a second are freed, those on
every bucket and no other. -/
structure CleanedUp (t : Int) (s s' : Bufmgr) : Prop where
  kept : ∀ i, s'.bucketHead i = (s.bucketHead i).filter fun b => decide (t - (s.bos b).freeTime ≤ 1)
  freed : ∀ i, ∀ b ∈ s.bucketHead i, 1 < t - (s.bos b).freeTime → s'.bos b = {}
  others : ∀ b, (∀ i, b ∈ s.bucketHead i → t - (s.bos b).freeTime ≤ 1) → s'.bos b = s.bos b

/-- In the order of release the objects at the front that have expired are all that have. -/
theorem Aged.expired_front (h : Aged t s) (i : Nat) (t' : Int) :
    (s.bucketHead i).dropWhile (fun b => expired t' b (s.bos b))
      = (s.bucketHead i).filter fun b => decide (t' - (s.bos b).freeTime ≤ 1) := by
  refine dropWhile_eq_filter ((h.sorted i).imp fun {a b} hab ha => ?_)
  have := of_decide_eq_true ha
  exact decide_eq_true (by omega)

/-- ... and the front is all of them. -/
theorem Aged.mem_expired (h : Aged t s) {i : Nat} {t' : Int} {b : BoId} (hb : b ∈ s.bucketHead i) :
    b ∈ (s.bucketHead i).takeWhile (fun c => expired t' c (s.bos c)) ↔ 1 < t' - (s.bos b).freeTime := by
  constructor
  · intro hin
    have := List.mem_takeWhile_imp hin
    simp only [expired, Bool.not_eq_true', decide_eq_false_iff_not] at this
    omega
  · intro hold
    rw [← List.takeWhile_append_dropWhile (p := fun c => expired t' c (s.bos c)) (l := s.bucketHead i)] at hb
    rcases List.mem_append.mp hb with hin | hin
    · exact hin
    · rw [h.expired_front] at hin
      have := of_decide_eq_true (List.mem_filter.mp hin).2
      omega

/-- The same when the clean-up has got through the buckets `done`. -/
structure CleanedOf (t : Int) (done : List Nat) (s s' : Bufmgr) : Prop where
  kept : ∀ i ∈ done, s'.bucketHead i = (s.bucketHead i).filter fun b => decide (t - (s.bos b).freeTime ≤ 1)
  rest : ∀ i, i ∉ done → s'.bucketHead i = s.bucketHead i
  freed : ∀ i ∈ done, ∀ b ∈ s.bucketHead i, 1 < t - (s.bos b).freeTime → s'.bos b = {}
  others : ∀ b, (∀ i ∈ done, b ∈ s.bucketHead i → t - (s.bos b).freeTime ≤ 1) → s'.bos b = s.bos b
  time : s'.time = s.time

theorem CleanedOf.nil (t : Int) (s : Bufmgr) : CleanedOf t [] s s :=
  ⟨nofun, fun _ _ => rfl, nofun, fun _ _ => rfl, rfl⟩

/-- One more bucket. -/
theorem CleanedOf.snoc {done : List Nat} {i : Nat} {s₁ s₂ : Bufmgr} (hq : Queued t X s) (h : CleanedOf t done s s₁)
    (hi : i ∉ done) (hf : FrontFreed (expired t) i (s₁.bucketHead i) s₁ s₂) : CleanedOf t (done ++ [i]) s s₂ := by
  have hlist : s₁.bucketHead i = s.bucketHead i := h.rest i hi
  have hbos : ∀ c ∈ s.bucketHead i, s₁.bos c = s.bos c := fun c hc =>
    h.others c fun j hj hcj => absurd (hq.unique i j c hc hcj ▸ hj) hi
  obtain ⟨htake, hdrop⟩ := takeWhile_congr fun c (hc : c ∈ s.bucketHead i) =>
    show expired t c (s₁.bos c) = expired t c (s.bos c) by rw [hbos c hc]
  obtain ⟨hbucket, hfreed, hothers, htime⟩ := hf
  rw [hlist, hdrop, hq.expired_front] at hbucket
  rw [hlist, htake] at hfreed hothers
  refine ⟨fun j hj => ?_, fun j hj => ?_, fun j hj c hc hold => ?_, fun c hc => ?_, htime.trans h.time⟩
  · rw [hbucket]
    by_cases hji : j = i
    · rw [hji, Function.update_self]
    · rw [Function.update_of_ne hji]
      exact h.kept j ((List.mem_append.mp hj).resolve_right fun h => hji (List.mem_singleton.mp h))
  · rw [List.mem_append, not_or, List.mem_singleton] at hj
    rw [hbucket, Function.update_of_ne hj.2]
    exact h.rest j hj.1
  · rcases List.mem_append.mp hj with hj | hj
    · -- the object was freed before, and its bucket is another
      rw [hothers c fun hin => hi (hq.unique j i c hc ((List.takeWhile_prefix _).subset hin) ▸ hj)]
      exact h.freed j hj c hc hold
    · obtain rfl := List.mem_singleton.mp hj
      exact hfreed c ((hq.mem_expired hc).mpr hold)
  · rw [hothers c fun hin => ?_, h.others c fun j hj => hc j (List.mem_append_left _ hj)]
    have hci := (List.takeWhile_prefix _).subset hin
    have := hc i (List.mem_append_right _ (List.mem_singleton.mpr rfl)) hci
    have := (hq.mem_expired hci).mp hin
    omega

/-- Where the clean-up returns early it has nothing to do. -/
theorem Aged.nothing_expired (h : Aged t s) (ht : s.time = t) : CleanedUp t s s where
  kept i := (List.filter_eq_self.mpr fun b hb => decide_eq_true (ht ▸ h.young i b hb)).symm
  freed i b hb hold := by
    have := h.young i b hb
    omega
  others _ _ := rfl

/-- `drm_intel_gem_cleanup_bo_cache` removes what has expired. -/
theorem cleanupBoCache_queued (h : Queued t X s) :
    Ensures (cleanupBoCache t s) fun s' => Queued t X s' ∧ CleanedUp t s s' := by
  unfold cleanupBoCache
  split
  · rename_i ht
    exact .ok ⟨h, h.nothing_expired ht⟩
  refine Ensures.bind (P := fun s' => Queued t X s' ∧ CleanedOf t (List.range cacheBucketSizes.length) s s')
    (.foldlM_done (I := fun done s' => Queued t X s' ∧ CleanedOf t done s s') ⟨h, .nil t s⟩ ?_) fun s₁ hs₁ => .pure ?_
  · intro done i rest s₁ hl hs₁
    have hi : i ∉ done := fun hin => (List.nodup_append.mp (hl ▸ List.nodup_range)).2.2 i hin i (List.mem_cons_self ..) rfl
    exact (dropStale_queued (expired t) i _ rfl hs₁.1).mono fun s₂ hs₂ => ⟨hs₂.1, hs₁.2.snoc h hi hs₂.2⟩
  · obtain ⟨h₁, hc⟩ := hs₁
    have hkept : ∀ i, s₁.bucketHead i = (s.bucketHead i).filter fun b => decide (t - (s.bos b).freeTime ≤ 1) := fun i => by
      by_cases hi : i < cacheBucketSizes.length
      · exact hc.kept i (List.mem_range.mpr hi)
      · have hnil : s.bucketHead i = [] := List.eq_nil_iff_forall_not_mem.mpr fun b hb => hi (h.index i b hb)
        rw [hc.rest i fun hin => hi (List.mem_range.mp hin), hnil, List.filter_nil]
    refine ⟨⟨⟨h₁.sorted, h₁.past, fun i b hb => ?_, le_rfl⟩, h₁.nodup, h₁.unique, h₁.index, h₁.old, h₁.fresh, h₁.off⟩,
      hkept, fun i b hb => hc.freed i (List.mem_range.mpr (h.index i b hb)) b hb, fun b hb => hc.others b fun i _ => hb i⟩
    -- what was kept is young, and was not written to
    have hin : b ∈ s.bucketHead i ∧ t - (s.bos b).freeTime ≤ 1 := by
      change b ∈ s₁.bucketHead i at hb
      rw [hkept, List.mem_filter] at hb
      exact ⟨hb.1, of_decide_eq_true hb.2⟩
    have hsame : s₁.bos b = s.bos b := hc.others b fun _ _ _ => hin.2
    show t - (s₁.bos b).freeTime ≤ 1
    rw [hsame]
    exact hin.2

/-- `drm_intel_gem_bo_unreference`. -/
theorem boUnreference_queued (h : Queued t X s) : Ensures (boUnreference madv t b s) (Queued t X) := by
  unfold boUnreference
  cases hpos : decide (0 < (s.bos b).refcount) with
  | false => exact .error
  | true =>
      rw [assert_true, ok_bind]
      have hpos := of_decide_eq_true hpos
      split
      · exact .ok (h.drop hpos)
      rename_i hone
      rw [not_not] at hone
      refine locked_ensures ?_
      have hlock : Queued t X { s with lock := true } := h.still (Still.setLock s true)
      rw [if_pos hone]
      refine (boUnreferenceFinal_queued (fun h => boUnreferenceLockedTimed_queued _ h) hlock hone).bind fun s₁ h₁ => ?_
      exact (cleanupBoCache_queued h₁).mono fun s₂ h₂ => h₂.1.still (Still.setLock s₂ false)

/-- `drm_intel_gem_bo_clear_relocs` releases objects, and does not clean up. -/
theorem boClearRelocs_queued (h : Queued t [] s) (start : Nat) :
    Ensures (boClearRelocs madv t b start s) (Aged t) := by
  refine .bind_any fun _ => locked_ensures ?_
  have hlock : Queued t [] { s with lock := true } := h.still (Still.setLock s true)
  refine Ensures.bind (P := Queued t []) (.foldlM hlock fun s₁ c h₁ => ?_) fun s₁ h₁ => .pure ?_
  · unfold dropReloc
    split
    · exact .ok h₁
    · exact boUnreferenceLockedTimed_queued _ (h₁.still (Still.modify s₁ b rfl rfl))
  · exact (h₁.toAged.modify b (f := Bo.truncate start) rfl).same rfl rfl fun _ => rfl

end Release

/-! ## Allocations -/

section Allocations

variable {t : Int} {X : List BoId} {s : Bufmgr}

/-- A new object at the number `nextBo`. -/
theorem Queued.calloc (h : Queued t X s) (bo : Bo) : Queued t X (s.calloc bo) := by
  have hoff : ∀ i, s.nextBo ∉ s.bucketHead i := fun i hin => absurd (h.old i _ hin).2 (lt_irrefl _)
  refine h.write hoff (fun c hc => Function.update_of_ne hc _ _) rfl rfl (Nat.le_succ _) (Nat.lt_succ_self _)
    fun c hc => .inl ⟨?_, hc⟩
  rintro rfl
  exact absurd (h.off _ hc).2.1 (lt_irrefl _)

/-- A new object to which there is no reference yet. -/
theorem Queued.callocOff (h : Queued t X s) (bo : Bo) (hbo : bo.refcount = 0) :
    Queued t (s.nextBo :: X) (s.calloc bo) := by
  have hoff : ∀ i, s.nextBo ∉ s.bucketHead i := fun i hin => absurd (h.old i _ hin).2 (lt_irrefl _)
  have hself : (s.calloc bo).bos s.nextBo = bo := Function.update_self ..
  refine { h.calloc bo with off := fun c hc => ?_ }
  rcases List.mem_cons.mp hc with rfl | hc
  · exact ⟨by rw [hself]; exact hbo, Nat.lt_succ_self _, hoff⟩
  · exact (h.calloc bo).off c hc

/-- The object that a search has found, if any, is off the cache. -/
def Taken (t : Int) (r : Option BoId × Bufmgr) : Prop := Queued t r.1.toList r.2

/-- A busy object, or one that takes another tiling: only what the cache does not look at is written. -/
theorem boSetTilingInternal_still (b : BoId) (mode stride : Nat) (setTiling : Reply Tiling) (s : Bufmgr) :
    Still s (boSetTilingInternal b mode stride setTiling s).2 := by
  obtain ⟨ret, t, he, -⟩ := boSetTilingInternal_eq b mode stride setTiling s
  rw [he]
  exact Still.modify s b rfl rfl

theorem setInApertureSize_still (b : BoId) (s : Bufmgr) : Ensures (setInApertureSize b s) (Still s) :=
  .bind_any fun _ => .bind_any fun _ => .pure (Still.modify s b rfl rfl)

theorem pickCached_queued (h : Queued t [] s) (i : Nat) (forRender : Bool) (busy : Reply Bool) :
    Taken t (pickCached i forRender busy s) := by
  unfold pickCached
  cases hl : s.bucketHead i with
  | nil => exact h
  | cons b l =>
      have hnd : (b :: l).Nodup := hl ▸ h.nodup i
      dsimp only
      split
      · have hsplit := List.dropLast_append_getLast (List.cons_ne_nil b l)
        have hlast : (b :: l).getLast (List.cons_ne_nil b l) ∈ s.bucketHead i := by
          rw [hl]
          exact List.getLast_mem _
        refine h.dequeue (hl ▸ List.dropLast_sublist _) hlast fun hin => ?_
        rw [← hsplit] at hnd
        exact (List.nodup_append.mp hnd).2.2 _ hin _ (List.mem_singleton.mpr rfl) rfl
      · obtain ⟨idle, he⟩ := boBusy_eq b busy s
        have h₁ : Queued t [] (s.modify b (Bo.setIdle idle)) := h.still (Still.modify s b rfl rfl)
        rw [he]
        cases (s.bos b).isBusy busy with
        | true => exact h₁
        | false =>
            exact h₁.dequeue (hl ▸ List.sublist_cons_self b l) (hl ▸ List.mem_cons_self ..) (List.nodup_cons.mp hnd).1

theorem searchCache_queued (i : Nat) (forRender : Bool) (mode stride : Nat) (replies : Nat → SearchReply) :
    ∀ (k : Nat) {s : Bufmgr}, Queued t [] s → Ensures (searchCache i forRender mode stride replies k s) (Taken t)
  | 0, _, _ => .error
  | k + 1, s, h => by
      unfold searchCache
      have hpick := pickCached_queued h i forRender (replies k).busy
      split
      · rename_i s₁ he
        rw [he] at hpick
        exact .ok hpick
      rename_i b s₁ he
      rw [he] at hpick
      have hpick : Queued t [b] s₁ := hpick
      split
      · have hset := boSetTilingInternal_still b mode stride (replies k).setTiling s₁
        split
        rename_i ret s₂ he₂
        rw [he₂] at hset
        split
        · exact .ok (hpick.still hset)
        · exact (boFree_queued (hpick.still hset)).bind fun s₃ h₃ =>
            searchCache_queued i forRender mode stride replies k h₃
      · refine (boFree_queued hpick).bind fun s₂ h₂ => (dropStale_queued _ i _ rfl h₂).bind fun s₃ h₃ => ?_
        exact searchCache_queued i forRender mode stride replies k h₃.1

theorem allocCached_queued (h : Queued t [] s) (bucket : Option Nat) (forRender : Bool) (mode stride : Nat)
    (replies : Nat → SearchReply) : Ensures (allocCached bucket forRender mode stride replies s) (Taken t) := by
  have hlock : Queued t [] { s with lock := true } := h.still (Still.setLock s true)
  refine withLock_ensures (Ensures.mono (P := Taken t) ?_ fun r hr => hr.still (Still.setLock r.2 false))
  split
  · exact .ok hlock
  · exact searchCache_queued _ forRender mode stride replies _ hlock

theorem initNodes_still (b : BoId) (s : Bufmgr) : Ensures (initNodes b s) (Still s) :=
  .bind_any fun _ => .bind_any fun _ => .pure ⟨rfl, rfl, rfl, fun _ => rfl, fun _ => rfl⟩

theorem allocFresh_queued (h : Queued t [] s) (size mode stride : Nat) (r : FreshReply) :
    Ensures (allocFresh size mode stride r s) (Taken t) := by
  unfold allocFresh
  split
  · exact .ok h
  split
  · exact .ok h
  rename_i hd o _
  have hnew := h.callocOff { allocated := true, size := size, gemHandle := hd } rfl
  have hkernel : Queued t [s.nextBo] { s.calloc { allocated := true, size := size, gemHandle := hd } with
      kernel := s.kernel.create hd o } := hnew.still ⟨rfl, rfl, rfl, fun _ => rfl, fun _ => rfl⟩
  have hset := boSetTilingInternal_still s.nextBo mode stride r.setTiling
    { s.calloc { allocated := true, size := size, gemHandle := hd } with kernel := s.kernel.create hd o }
  dsimp only at hset hkernel ⊢
  split
  · exact (initNodes_still _ _).bind fun s₂ h₂ => .pure ((hkernel.still hset).still h₂)
  · exact (boFree_queued (hkernel.still hset)).bind fun s₂ h₂ => .pure h₂

/-- The caller gets the only reference. -/
theorem allocFinish_queued {reusable : Bool} {r : Option BoId × Bufmgr} (h : Taken t r) :
    Ensures (allocFinish reusable r.1 r.2) fun r' => Aged t r'.2 := by
  obtain ⟨found, s⟩ := r
  cases found with
  | none => exact .ok h.toAged
  | some b =>
      refine (setInApertureSize_still b _).bind fun s₁ hs₁ => .pure ?_
      exact (h.toAged.modify b (f := Bo.handOut reusable) rfl).same hs₁.bucketHead hs₁.time hs₁.freeTime

theorem boAllocInternal_queued (h : Queued t [] s) (size : Nat) (forRender : Bool) (mode stride : Nat)
    (r : AllocReply) : Ensures (boAllocInternal size forRender mode stride r s) fun r' => Aged t r'.2 := by
  refine (allocCached_queued h (boBucketForSize size) forRender mode (stride % 2 ^ 32) r.search).bind ?_
  rintro ⟨found, s₁⟩ h₁
  cases found with
  | some b => exact allocFinish_queued (r := (some b, s₁)) h₁
  | none =>
      exact (allocFresh_queued h₁ _ mode (stride % 2 ^ 32) r.fresh).bind fun r' h' => allocFinish_queued h'

theorem boAllocUserptr_queued (h : Queued t [] s) (addr mode size : Nat) (r : FreshReply) :
    Ensures (boAllocUserptr addr mode size r s) fun r' => Aged t r'.2 := by
  unfold boAllocUserptr
  split
  · exact .ok h.toAged
  split
  · exact .ok h.toAged
  split
  · exact .ok h.toAged
  · rename_i hd o _
    have hnew := h.callocOff { allocated := true, size := size, gemHandle := hd, isUserptr := true, virt := addr
                               userVirtual := addr } rfl
    refine (initNodes_still s.nextBo _).bind fun s₁ hs₁ => allocFinish_queued (r := (some s.nextBo, s₁)) ?_
    exact (hnew.still (Still.setKernel _ _)).still hs₁

/-! ## Shared objects -/

theorem linkNamed_still (b : BoId) (s : Bufmgr) : Ensures (linkNamed b s) (Still s) :=
  .bind_any fun _ => .bind_any fun _ => .pure ⟨rfl, rfl, rfl, fun _ => rfl, fun _ => rfl⟩

theorem putOnNamed_still (b : BoId) (s : Bufmgr) : Ensures (putOnNamed b s) (Still s) := by
  unfold putOnNamed
  split
  · exact .bind_any fun _ => .pure ⟨rfl, rfl, rfl, fun _ => rfl, fun _ => rfl⟩
  · exact .ok (Still.refl s)

theorem nameNew_queued (h : Queued t [] s) (madv : Madvise) (name : Nat) (hd : Handle) (r : NameReply) :
    Ensures (nameNew madv t name hd r s) fun r' => Queued t [] r'.2 := by
  unfold nameNew
  split
  · exact .ok h
  have h₁ := h.calloc (namedBo name hd r.size)
  dsimp only
  split
  · exact (boUnreference_queued h₁).bind fun s₂ h₂ => .pure h₂
  · refine (setInApertureSize_still _ _).bind fun s₂ h₂ => (linkNamed_still _ s₂).bind fun s₃ h₃ => .pure ?_
    exact ((h₁.still (Still.modify _ s.nextBo rfl rfl)).still h₂).still h₃

theorem boReference_aged (h : Aged t s) (b : BoId) : Aged t (boReference b s) := h.modify b rfl

theorem Aged.locked {α : Type} (h : Queued t [] s) {f : Bufmgr → Except Fault (α × Bufmgr)}
    (hf : ∀ s, Queued t [] s → Ensures (f s) fun r => Aged t r.2) : Ensures (s.withLock f) fun r => Aged t r.2 :=
  withLock_ensures ((hf _ (h.still (Still.setLock s true))).mono fun _ hr => hr.same rfl rfl fun _ => rfl)

theorem boGemCreateFromName_queued (h : Queued t [] s) (madv : Madvise) (name : Nat) (r : NameReply) :
    Ensures (boGemCreateFromName madv t name r s) fun r' => Aged t r'.2 := by
  refine Aged.locked h fun s h => .bind_any fun found => ?_
  split
  · exact .pure (boReference_aged h.toAged _)
  split
  · exact .pure h.toAged
  have hopen : ∀ k, Queued t [] { s with kernel := k } := fun k => h.still (Still.setKernel s k)
  refine .bind_any fun found => ?_
  split
  · exact .pure (boReference_aged (hopen _).toAged _)
  · exact (nameNew_queued (hopen _) madv name _ r).mono fun _ hr => hr.toAged

/-- What the locked section of an import leaves: only an object of this process may have been in use before. -/
def PrimeAged (t : Int) (r : Import × Bufmgr) : Prop :=
  match r.1 with
  | .created _ => Queued t [] r.2
  | _ => Aged t r.2

theorem primeImport_queued (h : Queued t [] s) (opened : Bool) (hd : Handle) (size : Int) (r : PrimeReply) :
    Ensures (primeImport opened hd size r s) (PrimeAged t) := by
  have hlock : Queued t [] { s with lock := true } := h.still (Still.setLock s true)
  refine withLock_ensures (.bind_any fun found => ?_)
  split
  · exact .pure ((boReference_aged hlock.toAged _).same rfl rfl fun _ => rfl)
  split
  · unfold primeNew
    split
    · exact .ok (hlock.toAged.same rfl rfl fun _ => rfl)
    · refine (linkNamed_still _ _).bind fun s₁ h₁ => .pure ?_
      exact ((hlock.calloc _).still h₁).still (Still.setLock s₁ false)
  · exact .pure (hlock.toAged.same rfl rfl fun _ => rfl)

theorem primeFinish_queued {i : Import} (h : PrimeAged t (i, s)) (madv : Madvise) (getTiling : Reply Tiling) :
    Ensures (primeFinish madv t getTiling i s) fun r' => Aged t r'.2 := by
  unfold primeFinish
  split
  · exact .ok h
  · exact .ok h
  · rename_i b
    have h : Queued t [] s := h
    split
    · exact (boUnreference_queued h).bind fun s₁ h₁ => .pure h₁.toAged
    · exact (setInApertureSize_still _ _).bind fun s₁ h₁ => .pure ((h.still (Still.modify s b rfl rfl)).still h₁).toAged

theorem primeFdToHandle_queued (h : Queued t [] s) (r : PrimeReply) : Queued t [] (primeFdToHandle r s).2 := by
  unfold primeFdToHandle
  split <;> exact h.still ⟨rfl, rfl, rfl, fun _ => rfl, fun _ => rfl⟩

theorem boGemCreateFromPrime_queued (h : Queued t [] s) (madv : Madvise) (size : Int) (r : PrimeReply) :
    Ensures (boGemCreateFromPrime madv t size r s) fun r' => Aged t r'.2 := by
  have h₀ := primeFdToHandle_queued h r
  unfold boGemCreateFromPrime
  split
  rename_i opened hd s₁ he
  rw [he] at h₀
  exact (primeImport_queued h₀ opened hd size r).bind fun i h₁ => primeFinish_queued h₁ madv r.getTiling

end Allocations

/-! ## The other calls -/

section Calls

variable {t : Int} {σ : Sys}

/-- Between calls nothing is being released, and the rest is in the invariant of the manager. -/
theorem Rest.queued (h : Rest σ) (ha : Aged t σ.mgr) : Queued t [] σ.mgr := by
  obtain ⟨r, hi⟩ := h.settled
  refine ⟨ha, hi.cache.nodup, fun i j b => hi.cache.unique, fun i b hb => ?_, fun i b hb => ?_, fun b hb => ?_, nofun⟩
  · exact (List.getElem?_eq_some_iff.mp (hi.cache.member i b hb).1.size).1
  · have hc := (hi.cache.member i b hb).1
    exact ⟨hc.unreferenced, hi.graph.lt_nextBo hc.allocated⟩
  · exact hi.graph.unalloc b (hi.graph.fresh b hb)

theorem Aged.quiet {s s' : Bufmgr} (h : Aged t s) (hq : Quiet s s') : Aged t s' :=
  h.same (congrArg Bufmgr.bucketHead hq.rest :) (congrArg Bufmgr.time hq.rest :)
    fun c => (congrArg Bo.freeTime (hq.bos c) :)

theorem Aged.mapFrame {s s' : Bufmgr} {b : BoId} (h : Aged t s) (hf : MapFrame b s s') : Aged t s' :=
  h.same (congrArg Bufmgr.bucketHead hf.rest :) (congrArg Bufmgr.time hf.rest :)
    fun c => (congrArg Bo.freeTime (hf.bos c) :)

theorem boEmitReloc_aged {s : Bufmgr} (h : Aged t s) (b : BoId) (a : EmitArgs) :
    Ensures (boEmitReloc b a s) fun r => Aged t r.2 := by
  rintro ⟨ret, s'⟩ hr
  rcases boEmitReloc_cases hr with ⟨-, rfl⟩ | ⟨-, -, room, rfl⟩
  · exact h.modify b rfl
  · have hsetup : Aged t (s.modify b (Bo.setup room)) := h.modify b rfl
    have hrest := storedReloc_rest b a (a.needFence s) (a.fencedCommand s) room (s.modify b (Bo.setup room))
    refine hsetup.same (congrArg Bufmgr.bucketHead hrest :) (congrArg Bufmgr.time hrest :) fun c => ?_
    by_cases ht : a.target = b
    · rw [storedReloc_self_bos ht]
      split
      · rename_i hcb
        rw [hcb]
        rfl
      · rfl
    · rw [storedReloc_bos ht]
      split
      · rename_i hcb
        rw [hcb]
        rfl
      · split
        · rename_i hct
          rw [hct]
          rfl
        · rfl

theorem boSetTiling_aged {s : Bufmgr} (h : Aged t s) (b : BoId) (mode stride : Nat) (setTiling : Reply Tiling) :
    Ensures (boSetTiling b mode stride setTiling s) fun r => Aged t r.2 := by
  unfold boSetTiling
  split
  · exact .ok h
  dsimp only
  generalize (if mode = I915_TILING_NONE then 0 else stride) = given
  have hset := boSetTilingInternal_still b mode given setTiling s
  have h₁ := h.same hset.bucketHead hset.time hset.freeTime
  split
  · exact (setInApertureSize_still b _).bind fun s₂ h₂ => .pure (h₁.same h₂.bucketHead h₂.time h₂.freeTime)
  · exact .ok h₁

theorem boGemExportToPrime_aged {s : Bufmgr} (h : Aged t s) (b : BoId) (handleToFd : Reply Unit) :
    Ensures (boGemExportToPrime b handleToFd s) fun r => Aged t r.2 := by
  refine Ensures.bind (P := Aged t) (locked_ensures ((putOnNamed_still b _).mono fun s₁ h₁ => ?_)) fun s₁ h₁ => .pure ?_
  · exact h.same h₁.bucketHead h₁.time h₁.freeTime
  · unfold exportEnd
    split
    · exact h₁
    · exact (h₁.modify b (f := Bo.keep) rfl).same rfl rfl fun _ => rfl

theorem boFlink_aged {s : Bufmgr} (h : Aged t s) (b : BoId) (flink : Reply Nat) :
    Ensures (boFlink b flink s) fun r => Aged t r.2 := by
  unfold boFlink
  split
  · exact .ok h
  refine withLock_ensures ?_
  split
  · exact .ok (h.same rfl rfl fun _ => rfl)
  · rename_i name
    refine (putOnNamed_still b _).bind fun s₁ h₁ => .pure ?_
    have h₂ : Aged t (s.modify b fun bo => { bo.keep with globalName := name }) := h.modify b rfl
    exact h₂.same h₁.bucketHead h₁.time h₁.freeTime

/-- What the clock shows during a call that reads it. -/
def Call.now : Call → Option Int
  | .unreference _ time _ | .clearRelocs _ time _ _ | .createFromName _ time _ _ | .createFromPrime _ time _ _ =>
      some time
  | _ => none

/-- Every call keeps the cache aged, for a clock that had not got further. -/
theorem Call.run_aged (h : Rest σ) (ha : Aged t σ.mgr) {c : Call} (hv : c.Valid σ) (hnow : ∀ u, c.now = some u → u = t) :
    Ensures (c.run σ.mgr) fun r => Aged t r.2 := by
  have hq := h.queued ha
  have hset := h.settled
  cases c with
  | enableReuse => exact .ok (ha.same rfl rfl fun _ => rfl)
  | enableFencedRelocs =>
      simp only [Call.run, Gem.enableFencedRelocs]
      split
      · exact .ok (ha.same rfl rfl fun _ => rfl)
      · exact .ok ha
  | alloc size forRender r => exact boAllocInternal_queued hq size forRender I915_TILING_NONE 0 r
  | allocTiled x y cpp mode forRender r =>
      exact .bind_any fun l => boAllocInternal_queued hq l.1 forRender l.2.2 _ r
  | allocUserptr addr mode size r => exact boAllocUserptr_queued hq addr mode size r
  | createFromName madv time name r =>
      obtain rfl := hnow time rfl
      exact boGemCreateFromName_queued hq madv name r
  | createFromPrime madv time size r =>
      obtain rfl := hnow time rfl
      exact boGemCreateFromPrime_queued hq madv size r
  | exportToPrime b handleToFd => exact silent_ensures (boGemExportToPrime_aged ha b handleToFd)
  | flink b r => exact silent_ensures (boFlink_aged ha b r)
  | disableReuse b => exact .ok (ha.modify b rfl)
  | reference b => exact .ok (boReference_aged ha b)
  | unreference madv time b =>
      obtain rfl := hnow time rfl
      exact plain_ensures ((boUnreference_queued hq).mono fun _ hr => hr.toAged)
  | emitReloc b a => exact silent_ensures (boEmitReloc_aged ha b a)
  | clearRelocs madv time b start =>
      obtain rfl := hnow time rfl
      exact plain_ensures (boClearRelocs_queued hq start)
  | exec b r =>
      have hb := hv.1 b (List.mem_singleton.mpr rfl)
      exact silent_ensures ((boExec_ensures hset h.lock h.calm.unlisted h.calm.unflagged hb.1 r).mono
        fun _ hr => ha.quiet hr.quiet)
  | exec2 b flags r =>
      have hb := hv.1 b (List.mem_singleton.mpr rfl)
      exact silent_ensures ((doExec2_ensures hset h.lock h.calm.unlisted h.calm.unflagged hb.1 flags r).mono
        fun _ hr => ha.quiet hr.quiet)
  | checkApertureSpace bos =>
      refine silent_ensures ((checkApertureSpace_quiet hset h.calm.unflagged fun c hc => ?_).mono fun _ hr =>
        ha.quiet hr.1)
      exact (hv.1 c (by simpa [Call.objects, List.reduceOption_mem_iff] using hc)).1
  | map b writeEnable mmap =>
      have hb := hv.1 b (List.mem_singleton.mpr rfl)
      exact silent_ensures ((boMap_spec hset.vma hb.1 h.lock writeEnable mmap).ensures.mono fun _ hr => ha.mapFrame hr.2)
  | mapGtt b mmap =>
      have hb := hv.1 b (List.mem_singleton.mpr rfl)
      exact silent_ensures ((boMapGtt_spec hset.vma hb.1 h.lock mmap).ensures.mono fun _ hr => ha.mapFrame hr.2)
  | mapUnsynchronized b mmap =>
      have hb := hv.1 b (List.mem_singleton.mpr rfl)
      exact silent_ensures ((boMapUnsynchronized_spec hset.vma hb.1 h.lock mmap).ensures.mono fun _ hr => ha.mapFrame hr.2)
  | unmap b swFinish =>
      have hb := hv.1 b (List.mem_singleton.mpr rfl)
      exact silent_ensures ((boUnmap_spec hset.vma hb.1 h.lock swFinish).ensures.mono fun _ hr => ha.mapFrame hr.2)
  | setVmaCacheSize limit =>
      refine plain_ensures ((setVmaCacheSize_spec hset.vma limit).ensures.mono fun s' hr => ?_)
      have hmax : Aged t { σ.mgr with vmaMax := limit } := ha.same rfl rfl fun _ => rfl
      exact hmax.mapFrame (hr.2.mapFrame 0)
  | setTiling b mode stride r => exact silent_ensures (boSetTiling_aged ha b mode stride r)
  | busy b r =>
      obtain ⟨idle, he⟩ := boBusy_eq b r σ.mgr
      simp only [Call.run, he]
      exact .ok (ha.modify b rfl)
  | «foreign» o => exact .ok (ha.same rfl rfl fun _ => rfl)

end Calls

/-! ## Runs with a clock -/

/-- The manager and its callers, and what the clock has got to. -/
structure Timed where
  sys : Sys
  clock : Int

namespace Timed

/-- One call, of those that `ok` allows.  The clock does not go back, and a call that reads it gets what it shows. -/
def Step (ok : Call → Bufmgr → Bufmgr → Prop) (τ τ' : Timed) : Prop :=
  ∃ c got, c.Valid τ.sys ∧ ok c τ.sys.mgr τ'.sys.mgr ∧ c.run τ.sys.mgr = .ok (got, τ'.sys.mgr)
    ∧ τ'.sys.callers = c.account got τ.sys.callers ∧ τ.clock ≤ τ'.clock ∧ ∀ t, c.now = some t → t = τ'.clock

/-- A manager that was just opened.  `CLOCK_MONOTONIC` starts at 0. -/
def Init (τ : Timed) : Prop := Gem.Init τ.sys ∧ 0 ≤ τ.clock

/-- The states of clean runs. -/
def Reachable : Timed → Prop := Runs Init (Step Clean)

/-- One call at the time `t`. -/
def play (ok : Call → Bufmgr → Bufmgr → Bool) (τ : Timed) (t : Int) (c : Call) : Option Timed :=
  if τ.clock ≤ t ∧ ∀ u ∈ c.now, u = t then (Gem.play ok c τ.sys).map fun σ => ⟨σ, t⟩ else none

variable {ok : Call → Bufmgr → Bufmgr → Bool}

theorem play_step {τ τ' : Timed} {t : Int} {c : Call} (h : play ok τ t c = some τ') :
    Step (fun c s s' => ok c s s' = true) τ τ' := by
  unfold play at h
  split at h
  · rename_i hclock
    obtain ⟨σ, hσ, rfl⟩ := Option.map_eq_some_iff.mp h
    obtain ⟨got, hv, hok, hrun, hcallers⟩ := play_inv hσ
    exact ⟨c, got, hv, hok, hrun, hcallers, hclock.1, fun u hu => hclock.2 u hu⟩
  · cases h

/-- A list of calls at given times, from a manager that was just opened. -/
def playAll (ok : Call → Bufmgr → Bufmgr → Bool) (cs : List (Int × Call)) : Option Timed :=
  cs.foldlM (fun τ c => play ok τ c.1 c.2) ⟨⟨bufmgrGemInit {} .empty, fun _ => 0⟩, 0⟩

theorem playAll_reachable {cs : List (Int × Call)} {τ : Timed} (h : playAll ok cs = some τ) :
    Runs Init (Step fun c s s' => ok c s s' = true) τ := by
  have hinit : Init ⟨⟨bufmgrGemInit {} .empty, fun _ => 0⟩, 0⟩ := ⟨⟨{}, .empty, KernelOk.empty, rfl⟩, le_rfl⟩
  unfold playAll at h
  refine Runs.foldlM (fun _ _ _ _ hs => ?_) (.init hinit) h
  exact play_step hs

theorem Reachable.aged {τ : Timed} (h : Reachable τ) : Rest τ.sys ∧ Aged τ.clock τ.sys.mgr := by
  refine Runs.induct (I := fun τ => Rest τ.sys ∧ Aged τ.clock τ.sys.mgr) ?_ ?_ h
  · rintro ⟨σ, clock⟩ ⟨⟨cfg, k, hk, rfl⟩, hclock⟩
    exact ⟨Rest.init cfg hk, fun i => List.Pairwise.nil, nofun, nofun, hclock⟩
  · rintro ⟨σ, clock⟩ ⟨⟨s', callers'⟩, clock'⟩ hτ ⟨c, got, hv, hc, hrun, hcallers, hclock, hnow⟩
    obtain ⟨hr, ha⟩ := hτ
    simp only at hcallers
    subst hcallers
    exact ⟨Call.run_spec hr hv hc _ hrun, Call.run_aged hr (ha.later hclock) hv hnow _ hrun⟩

end Timed

/-! ## The clean-ups of a run -/

/-- The loops of `drm_intel_gem_cleanup_bo_cache`, without the early return. -/
def scanBuckets (time : Int) (s : Bufmgr) : Except Fault Bufmgr :=
  (List.range cacheBucketSizes.length).foldlM (fun s i => cleanupBucket time i s) s

/-- `drm_intel_gem_bo_unreference` under the lock, for the last reference, up to the clean-up. -/
def releaseLast (madv : Madvise) (time : Int) (b : BoId) (s : Bufmgr) : Except Fault Bufmgr :=
  boUnreferenceFinal (boUnreferenceLockedTimed madv time (s.nextBo + 1)) madv time b
    ({ s with lock := true }.modify b Bo.decRef)

/-- A clean-up at `t` is right: each bucket is in the order of release, what has expired goes and
nothing else does, and where the function returns early the loops would have done nothing. -/
structure CacheAges (t : Int) (s : Bufmgr) : Prop where
  sorted : ∀ i, (s.bucketHead i).Pairwise fun a b => (s.bos a).freeTime ≤ (s.bos b).freeTime
  exact : Returns (cleanupBoCache t s) (CleanedUp t s)
  early : s.time = t → scanBuckets t s = .ok s

section CleanUps

variable {t : Int} {s : Bufmgr} {E : BoId → Prop} {callers : BoId → Nat}

theorem dropStale_young {stale : BoId → Bo → Bool} {l : List BoId} (h : ∀ b ∈ l, stale b (s.bos b) = false) (i : Nat) :
    dropStale stale i l s = .ok s := by
  cases l with
  | nil => rfl
  | cons b l =>
      unfold dropStale
      rw [h b (List.mem_cons_self ..), if_neg Bool.false_ne_true]

theorem Aged.scan_nothing (h : Aged t s) (ht : s.time = t) : scanBuckets t s = .ok s := by
  have hbucket : ∀ i, cleanupBucket t i s = .ok s := fun i => by
    refine dropStale_young (fun b hb => ?_) i
    have := h.young i b hb
    simp only [expired, Bool.not_eq_false', decide_eq_true_eq]
    omega
  have hloop : Returns (scanBuckets t s) fun s' => s' = s :=
    Returns.foldlM (I := fun _ s' => s' = s) rfl fun _ i _ s₁ _ hs₁ => by
      rw [hs₁, hbucket]
      exact .ok rfl
  obtain ⟨s', hs', rfl⟩ := hloop
  exact hs'

theorem Settled.ages (hs : Settled E callers s) (hq : Queued t [] s) : CacheAges t s where
  sorted := hq.sorted
  exact := by
    obtain ⟨r, hi⟩ := hs
    exact ((cleanupBoCache_spec hi t).and (cleanupBoCache_queued hq)).mono fun _ h => h.2.2
  early := hq.toAged.scan_nothing

/-- The clean-up inside of a release. -/
theorem Settled.releaseLast_ages (hs : Settled E callers s) (hq : Queued t [] s) {b : BoId} (hb : 0 < callers b)
    (h1 : (s.bos b).refcount = 1) (madv : Madvise) : Returns (releaseLast madv t b s) (CacheAges t) := by
  obtain ⟨r, hcan, hle⟩ := (hs.setLock true).canDrop hb
  have hspec := boUnreferenceFinal_spec (boUnreferenceLockedTimed_spec madv t (s.nextBo + 1)) hcan rfl h1
    (Nat.le_succ_of_le hle) madv t
  have hqueued : Ensures (releaseLast madv t b s) (Queued t []) :=
    boUnreferenceFinal_queued (fun h => boUnreferenceLockedTimed_queued _ h) (hq.still (Still.setLock s true)) h1
  refine (hspec.and hqueued).mono fun s₁ hs₁ => ?_
  obtain ⟨⟨out₁, h₁, hrel⟩, hq₁⟩ := hs₁
  obtain ⟨r₁, hset₁⟩ := Settled.of_released h₁ hrel
  exact Settled.ages ⟨r₁, hset₁⟩ hq₁

end CleanUps

/-- In every state of a run a clean-up at the time that the clock shows is right; so are those that
the calls make, at the end of a release, also where it is an import that fails. -/
theorem cache_ages {τ : Timed} (h : τ.Reachable) {t : Int} (ht : τ.clock ≤ t) :
    CacheAges t τ.sys.mgr
    ∧ (∀ madv b, 0 < τ.sys.callers b → (τ.sys.mgr.bos b).refcount = 1 →
        Returns (releaseLast madv t b τ.sys.mgr) (CacheAges t))
    ∧ ∀ size r, Ensures (primeImport (primeFdToHandle r τ.sys.mgr).1.1 (primeFdToHandle r τ.sys.mgr).1.2 size r
        (primeFdToHandle r τ.sys.mgr).2) fun i => ∀ b, i.1 = .created b → ∀ madv, (i.2.bos b).refcount = 1 →
          Returns (releaseLast madv t b i.2) (CacheAges t) := by
  obtain ⟨hrest, haged⟩ := h.aged
  have hq := hrest.queued (haged.later ht)
  refine ⟨hrest.settled.ages hq, fun madv b hb h1 => hrest.settled.releaseLast_ages hq hb h1 madv, fun size r => ?_⟩
  obtain ⟨hset, hlock, hsh⟩ := primeFdToHandle_spec hrest.settled r
  have hq₀ : Queued t [] (primeFdToHandle r τ.sys.mgr).2 := primeFdToHandle_queued hq r
  refine ((primeImport_spec hset (hlock.trans hrest.lock) _ hsh size r).ensures.and
    (primeImport_queued hq₀ _ _ size r)).mono fun i hi b hcreated madv h1 => ?_
  obtain ⟨i, s'⟩ := i
  obtain rfl : i = .created b := hcreated
  refine Settled.releaseLast_ages hi.1.2.1 hi.2 ?_ h1 madv
  rw [take, Function.update_self]
  exact Nat.succ_pos _

/-- Two objects of a page are released, one second after the other. -/
def twoReleases : List (Int × Call) :=
  [(0, .enableReuse), (0, .alloc 4096 false (.simple 1 1)), (0, .alloc 4096 false (.simple 2 2)),
    (5, .unreference (fun _ => true) 5 0), (6, .unreference (fun _ => true) 6 1)]

/-- Another second later the clean-up takes the first. -/
theorem cache_ages_twoReleases : ∃ τ : Timed, Timed.playAll Call.clean twoReleases = some τ ∧ τ.clock = 6
    ∧ τ.sys.mgr.bucketHead 0 = [0, 1] ∧ CacheAges 7 τ.sys.mgr
    ∧ Returns (cleanupBoCache 7 τ.sys.mgr) fun s' => s'.bucketHead 0 = [1] := by
  have hrun : (Timed.playAll Call.clean twoReleases).any (fun τ => decide (τ.clock = 6 ∧ τ.sys.mgr.bucketHead 0 = [0, 1])
      && returns (fun s' => decide (s'.bucketHead 0 = [1])) (cleanupBoCache 7 τ.sys.mgr)) = true := by
    decide +kernel
  cases hτ : Timed.playAll Call.clean twoReleases with
  | none => rw [hτ] at hrun; cases hrun
  | some τ =>
      rw [hτ, Option.any_some, Bool.and_eq_true] at hrun
      obtain ⟨hclock, hbucket⟩ := of_decide_eq_true hrun.1
      have hages := (cache_ages (Timed.playAll_reachable hτ) (t := 7) (by rw [hclock]; decide)).1
      exact ⟨τ, rfl, hclock, hbucket, hages, (returns_true hrun.2).mono fun _ h => of_decide_eq_true h⟩

/-- Two objects are exported in vain and released, and the first is used once more.  Its stale list node brings the
second back to the named list, where an import finds it; so it is released twice. -/
def releasedTwice : List (Int × Call) :=
  let refused : Errno := ⟨EINVAL, EINVAL_pos⟩
  [(0, .enableReuse), (0, .alloc 4096 false (.simple 1 1)), (0, .alloc 8192 false (.simple 2 2)),
    (0, .exportToPrime 0 (.error refused)), (0, .exportToPrime 1 (.error refused)),
    (1, .unreference (fun _ => true) 1 0), (1, .unreference (fun _ => true) 1 1),
    (1, .alloc 4096 false (.simple 3 3)), (1, .unreference (fun _ => true) 1 0),
    (1, .createFromName (fun _ => true) 1 0 ⟨⟨fun _ => .error refused, fun _ _ _ h => (by cases h)⟩, 0, true, .error refused⟩),
    (2, .unreference (fun _ => true) 2 1)]

/-- It is on its bucket twice, and the clean-up frees it twice. -/
theorem cache_ages_not_releasedTwice : ∃ τ : Timed, Runs Timed.Init (Timed.Step fun _ _ _ => True) τ ∧ τ.clock ≤ 4
    ∧ τ.sys.mgr.bucketHead 1 = [1, 1] ∧ ¬ CacheAges 4 τ.sys.mgr := by
  have hrun : (Timed.playAll (fun _ _ _ => true) releasedTwice).any (fun τ => decide (τ.clock ≤ 4
      ∧ τ.sys.mgr.bucketHead 1 = [1, 1]) && !returns (fun _ => true) (cleanupBoCache 4 τ.sys.mgr)) = true := by
    decide +kernel
  cases hτ : Timed.playAll (fun _ _ _ => true) releasedTwice with
  | none => rw [hτ] at hrun; cases hrun
  | some τ =>
      rw [hτ, Option.any_some, Bool.and_eq_true] at hrun
      obtain ⟨hclock, hbucket⟩ := of_decide_eq_true hrun.1
      refine ⟨τ, (Timed.playAll_reachable hτ).mono ?_, hclock, hbucket, fun h => ?_⟩
      · rintro _ _ ⟨c, got, hv, -, hrest⟩
        exact ⟨c, got, hv, trivial, hrest⟩
      · obtain ⟨s', hs', -⟩ := h.exact
        rw [hs'] at hrun
        cases hrun.2

end LibDrm.Gem
