/-
# `LibDrm.Gem.Graph` — references and relocations

The stored relocations make the buffer objects a graph, and every edge to
another object holds a reference.  `GraphOk` says what the code relies on:

    the edges go down in rank, so there is no cycle but self relocations;
    an object with an incoming edge has `used_as_reloc_target` set;
    refcount = references of callers + references in flight + incoming edges.

The release of an object drops its edges one at a time and may release the
targets, so the invariant is stated for the middle of such a cascade.  What the
memory does not show then is kept in `Ghost`: the edges that still count, the
objects that are being released, and the references that were taken off an
edge and have not been dropped yet.
-/
import LibDrm.Gem.State
import LibDrm.Lib.Walk

namespace LibDrm.Gem

open Walk

/-- The book-keeping of the proofs; outside of a call `pend` and `dying` are empty
and `out` is what the memory says. -/
structure Ghost where
  callers : BoId → Nat
  /-- references that the running call is about to drop -/
  pend : List BoId
  /-- the relocations whose references have not been dropped -/
  out : BoId → List BoId
  rank : BoId → Nat
  /-- the objects whose release is under way -/
  dying : List BoId
  /-- the objects whose export is under way -/
  exporting : BoId → Prop

/-- The references that the edges `l` out of `a` hold on `b`. -/
def edgeRefs (a b : BoId) (l : List BoId) : Nat := if a = b then 0 else l.count b

/-- The references that the edges hold on `b`. -/
def incoming (out : BoId → List BoId) (n : Nat) (b : BoId) : Nat :=
  ∑ a ∈ Finset.range n, edgeRefs a b (out a)

theorem edgeRefs_nil (a b : BoId) : edgeRefs a b [] = 0 := by simp [edgeRefs]

theorem edgeRefs_cons (a b t : BoId) (l : List BoId) :
    edgeRefs a b (t :: l) = edgeRefs a b l + if t ≠ a ∧ t = b then 1 else 0 := by
  unfold edgeRefs
  by_cases hab : a = b
  · subst hab
    simp
  · by_cases htb : t = b
    · subst htb
      simp [hab, Ne.symm hab]
    · simp [hab, htb]

theorem edgeRefs_append (a b : BoId) (l l' : List BoId) :
    edgeRefs a b (l ++ l') = edgeRefs a b l + edgeRefs a b l' := by
  unfold edgeRefs
  split <;> simp

/-- The edges out of one object change. -/
theorem incoming_update {n d : Nat} (hd : d < n) (out : BoId → List BoId) (l : List BoId) (b : BoId) :
    incoming (Function.update out d l) n b + edgeRefs d b (out d)
      = incoming out n b + edgeRefs d b l :=
  Count.sum_update_add hd out l fun a l => edgeRefs a b l

theorem incoming_succ {out : BoId → List BoId} {n : Nat} (h : out n = []) (b : BoId) :
    incoming out (n + 1) b = incoming out n b := by
  rw [incoming, Finset.sum_range_succ, h, edgeRefs_nil, add_zero, incoming]

/-- An edge is a reference. -/
theorem incoming_pos {out : BoId → List BoId} {n : Nat} {a b : BoId} (ha : a < n)
    (h : Edge out a b) : 0 < incoming out n b := by
  have hone : 0 < edgeRefs a b (out a) := by
    simp only [edgeRefs, if_neg (Ne.symm h.2)]
    exact List.count_pos_iff.mpr h.1
  exact lt_of_lt_of_le hone (Finset.single_le_sum (f := fun a => edgeRefs a b (out a))
    (fun _ _ => Nat.zero_le _) (Finset.mem_range.mpr ha))

/-- The graph, the reference counts and the flags agree. -/
structure GraphOk (g : Ghost) (s : Bufmgr) : Prop where
  fresh : ∀ b, s.nextBo ≤ b → (s.bos b).allocated = false
  unalloc : ∀ b, (s.bos b).allocated = false → (s.bos b).refcount = 0
  ranked : RankedBy g.out g.rank
  used : ∀ a b, Edge g.out a b → (s.bos b).usedAsRelocTarget = true
  count : ∀ b, (s.bos b).refcount = g.callers b + g.pend.count b + incoming g.out s.nextBo b
  dead : ∀ b, (s.bos b).refcount = 0 → b ∉ g.dying → g.out b = [] ∧ (s.bos b).relocs = []
  dying : ∀ b ∈ g.dying, (s.bos b).allocated = true ∧ (s.bos b).refcount = 0

namespace GraphOk

variable {g : Ghost} {s : Bufmgr}

theorem lt_nextBo (h : GraphOk g s) {b : BoId} (hb : (s.bos b).allocated = true) : b < s.nextBo := by
  by_contra hlt
  rw [h.fresh b (Nat.le_of_not_lt hlt)] at hb
  cases hb

theorem alloc_of_pos (h : GraphOk g s) {b : BoId} (hb : 0 < (s.bos b).refcount) :
    (s.bos b).allocated = true := by
  by_contra ha
  rw [h.unalloc b (by simpa using ha)] at hb
  exact absurd hb (lt_irrefl 0)

/-- An object with edges is live or being released. -/
theorem alloc_of_out (h : GraphOk g s) {a : BoId} (ha : g.out a ≠ []) : (s.bos a).allocated = true := by
  by_contra hna
  have hna : (s.bos a).allocated = false := by simpa using hna
  have hnd : a ∉ g.dying := fun hin => by
    rw [(h.dying a hin).1] at hna
    cases hna
  exact ha (h.dead a (h.unalloc a hna) hnd).1

theorem source_lt (h : GraphOk g s) {a b : BoId} (he : Edge g.out a b) : a < s.nextBo :=
  h.lt_nextBo (h.alloc_of_out (List.ne_nil_of_mem he.1))

/-- The other end of an edge is live. -/
theorem target_pos (h : GraphOk g s) {a b : BoId} (he : Edge g.out a b) : 0 < (s.bos b).refcount := by
  have := incoming_pos (h.source_lt he) he
  rw [h.count b]
  omega

/-- Nothing points to an object without references. -/
theorem no_edge (h : GraphOk g s) {b : BoId} (hb : (s.bos b).refcount = 0) (a : BoId) :
    ¬ Edge g.out a b := fun he => by
  have := h.target_pos he
  omega

/-- Nothing that the invariant reads has changed. -/
theorem congr {s' : Bufmgr} (h : GraphOk g s) (hn : s'.nextBo = s.nextBo)
    (ha : ∀ b, (s'.bos b).allocated = (s.bos b).allocated)
    (hr : ∀ b, (s'.bos b).refcount = (s.bos b).refcount)
    (hu : ∀ b, (s'.bos b).usedAsRelocTarget = (s.bos b).usedAsRelocTarget)
    (hl : ∀ b, (s'.bos b).relocs = (s.bos b).relocs) : GraphOk g s' := by
  constructor
  · intro b; rw [hn, ha]; exact h.fresh b
  · intro b; rw [ha, hr]; exact h.unalloc b
  · exact h.ranked
  · intro a b; rw [hu]; exact h.used a b
  · intro b; rw [hr, hn]; exact h.count b
  · intro b; rw [hr, hl]; exact h.dead b
  · intro b; rw [ha, hr]; exact h.dying b

/-! ### Reference counts -/

/-- The reference count of `b` changes, and with it the references that are accounted for. -/
theorem recount {g' : Ghost} (h : GraphOk g s) {b : BoId} {f : Bo → Bo}
    (hb : (s.bos b).allocated = true) (hbd : b ∉ g.dying)
    (hout : g'.out = g.out) (hrank : g'.rank = g.rank)
    (ha : (f (s.bos b)).allocated = true) (hl : (f (s.bos b)).relocs = (s.bos b).relocs)
    (hu : (f (s.bos b)).usedAsRelocTarget = (s.bos b).usedAsRelocTarget ∨ (s.bos b).refcount = 0)
    (hcount : (f (s.bos b)).refcount = g'.callers b + g'.pend.count b + incoming g.out s.nextBo b)
    (hothers : ∀ c, c ≠ b → g'.callers c + g'.pend.count c = g.callers c + g.pend.count c)
    (hdead : (f (s.bos b)).refcount = 0 → b ∈ g'.dying) (hsub : g.dying ⊆ g'.dying)
    (hdying : ∀ c ∈ g'.dying, c ∈ g.dying ∨ (c = b ∧ (f (s.bos b)).refcount = 0)) :
    GraphOk g' (s.modify b f) := by
  have hother : ∀ c, c ≠ b → (s.modify b f).bos c = s.bos c := fun c hc => modify_of_ne s hc f
  constructor
  · intro c hc
    rw [hother c (Nat.ne_of_gt (Nat.lt_of_lt_of_le (h.lt_nextBo hb) hc))]
    exact h.fresh c hc
  · intro c hc
    by_cases hcb : c = b
    · subst hcb
      rw [modify_self, ha] at hc
      cases hc
    · rw [hother c hcb] at hc ⊢
      exact h.unalloc c hc
  · rw [hout, hrank]; exact h.ranked
  · intro a c he
    rw [hout] at he
    by_cases hcb : c = b
    · subst hcb
      rw [modify_self, hu.resolve_right fun h0 => h.no_edge h0 a he]
      exact h.used a c he
    · rw [hother c hcb]
      exact h.used a c he
  · intro c
    rw [hout]
    by_cases hcb : c = b
    · subst hcb
      rw [modify_self]
      exact hcount
    · rw [hother c hcb, hothers c hcb]
      exact h.count c
  · intro c hc hnd
    rw [hout]
    by_cases hcb : c = b
    · subst hcb
      rw [modify_self] at hc
      exact absurd (hdead hc) hnd
    · rw [hother c hcb] at hc ⊢
      exact h.dead c hc fun hin => hnd (hsub hin)
  · intro c hc
    rcases hdying c hc with hin | ⟨rfl, h0⟩
    · rw [hother c fun e => hbd (e ▸ hin)]
      exact h.dying c hin
    · rw [modify_self]
      exact ⟨ha, h0⟩

/-- An object with a reference in flight is live. -/
theorem pos_of_pend (h : GraphOk g s) {b : BoId} (hb : b ∈ g.pend) : 0 < (s.bos b).refcount := by
  have := List.count_pos_iff.mpr hb
  rw [h.count b]
  omega

theorem notMem_dying (h : GraphOk g s) {b : BoId} (hb : 0 < (s.bos b).refcount) : b ∉ g.dying :=
  fun hin => by
    have := (h.dying b hin).2
    omega

/-- A reference in flight is dropped and others remain. -/
theorem drop (h : GraphOk g s) {b : BoId} {P : List BoId} (hp : g.pend = b :: P)
    (hne : (s.bos b).refcount ≠ 1) : GraphOk { g with pend := P } (s.modify b Bo.decRef) := by
  have hpos := h.pos_of_pend (b := b) (by simp [hp])
  have hcount := h.count b
  rw [hp, List.count_cons_self] at hcount
  refine h.recount (h.alloc_of_pos hpos) (h.notMem_dying hpos) rfl rfl (h.alloc_of_pos hpos) rfl
    (Or.inl rfl) ?_ ?_ ?_ (List.Subset.refl _) (fun c hc => Or.inl hc)
  · show (s.bos b).refcount - 1 = g.callers b + P.count b + incoming g.out s.nextBo b
    omega
  · intro c hc
    show g.callers c + P.count c = _
    rw [hp, List.count_cons_of_ne (Ne.symm hc)]
  · intro h0
    have h0 : (s.bos b).refcount - 1 = 0 := h0
    omega

/-- The last reference is dropped: the object is released. -/
theorem die (h : GraphOk g s) {b : BoId} {P : List BoId} (hp : g.pend = b :: P)
    (h1 : (s.bos b).refcount = 1) :
    GraphOk { g with pend := P, dying := b :: g.dying } (s.modify b Bo.decRef) := by
  have hpos : 0 < (s.bos b).refcount := by omega
  have hcount := h.count b
  rw [hp, List.count_cons_self] at hcount
  have hzero : (s.bos b).decRef.refcount = 0 := by
    show (s.bos b).refcount - 1 = 0
    omega
  refine h.recount (h.alloc_of_pos hpos) (h.notMem_dying hpos) rfl rfl (h.alloc_of_pos hpos) rfl
    (Or.inl rfl) ?_ ?_ (fun _ => List.mem_cons_self ..) (List.subset_cons_self _ _) ?_
  · show (s.bos b).refcount - 1 = g.callers b + P.count b + incoming g.out s.nextBo b
    omega
  · intro c hc
    show g.callers c + P.count c = _
    rw [hp, List.count_cons_of_ne (Ne.symm hc)]
  · intro c hc
    rcases List.mem_cons.mp hc with rfl | hc
    · exact Or.inr ⟨rfl, hzero⟩
    · exact Or.inl hc

/-- A caller takes a reference, on a live object or on one that comes out of the cache. -/
theorem ref (h : GraphOk g s) {b : BoId} {f : Bo → Bo} (hb : (s.bos b).allocated = true)
    (hbd : b ∉ g.dying) (ha : (f (s.bos b)).allocated = true)
    (hl : (f (s.bos b)).relocs = (s.bos b).relocs)
    (hu : (f (s.bos b)).usedAsRelocTarget = (s.bos b).usedAsRelocTarget ∨ (s.bos b).refcount = 0)
    (hr : (f (s.bos b)).refcount = (s.bos b).refcount + 1) :
    GraphOk { g with callers := Function.update g.callers b (g.callers b + 1) } (s.modify b f) := by
  have hcount := h.count b
  refine h.recount hb hbd rfl rfl ha hl hu ?_ ?_ ?_ (List.Subset.refl _) (fun c hc => Or.inl hc)
  · show _ = Function.update g.callers b (g.callers b + 1) b + g.pend.count b + incoming g.out s.nextBo b
    rw [Function.update_self, hr, hcount]
    omega
  · intro c hc
    show Function.update g.callers b (g.callers b + 1) c + _ = _
    rw [Function.update_of_ne hc]
  · intro h0
    omega

/-- A caller hands a reference over to be dropped. -/
theorem handOver (h : GraphOk g s) {b : BoId} (hb : 0 < g.callers b) :
    GraphOk { g with callers := Function.update g.callers b (g.callers b - 1), pend := b :: g.pend } s := by
  refine ⟨h.fresh, h.unalloc, h.ranked, h.used, fun c => ?_, h.dead, h.dying⟩
  have hcount := h.count c
  show _ = Function.update g.callers b (g.callers b - 1) c + (b :: g.pend).count c
    + incoming g.out s.nextBo c
  by_cases hcb : c = b
  · subst hcb
    rw [Function.update_self, List.count_cons_self]
    omega
  · rw [Function.update_of_ne hcb, List.count_cons_of_ne (Ne.symm hcb)]
    exact hcount

/-- The next edge of `d` gives up its reference; a self edge has none. -/
theorem shift (h : GraphOk g s) {d t : BoId} {l₁ l₂ : List BoId} (hd : g.out d = l₁ ++ t :: l₂) :
    GraphOk { g with
      out := Function.update g.out d (l₁ ++ l₂)
      pend := if t = d then g.pend else t :: g.pend } s := by
  have hlt : d < s.nextBo := h.lt_nextBo (h.alloc_of_out (by simp [hd]))
  have hsub : ∀ a b, Edge (Function.update g.out d (l₁ ++ l₂)) a b → Edge g.out a b := by
    intro a b he
    by_cases had : a = d
    · subst had
      rw [Edge, Function.update_self] at he
      refine ⟨?_, he.2⟩
      rw [hd]
      rcases List.mem_append.mp he.1 with hb | hb
      · exact List.mem_append_left _ hb
      · exact List.mem_append_right _ (List.mem_cons_of_mem _ hb)
    · rwa [Edge, Function.update_of_ne had] at he
  refine ⟨h.fresh, h.unalloc, h.ranked.of_edge hsub, fun a b he => h.used a b (hsub a b he), ?_, ?_,
    h.dying⟩
  · intro b
    have hc := h.count b
    have hin := incoming_update hlt g.out (l₁ ++ l₂) b
    rw [hd, edgeRefs_append, edgeRefs_append, edgeRefs_cons] at hin
    show _ = g.callers b + List.count b _ + incoming _ s.nextBo b
    by_cases htd : t = d
    · simp only [htd, ne_eq, not_true_eq_false, false_and, if_false, if_true] at hin ⊢
      omega
    · by_cases htb : t = b
      · subst htb
        simp only [htd, ne_eq, not_false_eq_true, and_self, if_true, if_false,
          List.count_cons_self] at hin ⊢
        omega
      · simp only [htd, htb, and_false, if_false, List.count_cons_of_ne htb] at hin ⊢
        omega
  · intro b hb hnd
    have hdead := h.dead b hb hnd
    have hbd : b ≠ d := by
      rintro rfl
      rw [hd] at hdead
      simp at hdead
    exact ⟨by rw [← hdead.1]; exact Function.update_of_ne hbd _ _, hdead.2⟩

/-! ### The end of a release -/

/-- The object being released forgets its relocations and its flag. -/
theorem clear (h : GraphOk g s) {b : BoId} {f : Bo → Bo} (hb : b ∈ g.dying)
    (ha : (f (s.bos b)).allocated = (s.bos b).allocated)
    (hr : (f (s.bos b)).refcount = (s.bos b).refcount) : GraphOk g (s.modify b f) := by
  have hother : ∀ c, c ≠ b → (s.modify b f).bos c = s.bos c := fun c hc => modify_of_ne s hc f
  have halloc : ∀ c, ((s.modify b f).bos c).allocated = (s.bos c).allocated := by
    intro c; rw [modify_bos]; split
    · rename_i hcb; rw [hcb]; exact ha
    · rfl
  have href : ∀ c, ((s.modify b f).bos c).refcount = (s.bos c).refcount := by
    intro c; rw [modify_bos]; split
    · rename_i hcb; rw [hcb]; exact hr
    · rfl
  have h0 := (h.dying b hb).2
  constructor
  · intro c; rw [halloc]; exact h.fresh c
  · intro c; rw [halloc, href]; exact h.unalloc c
  · exact h.ranked
  · intro a c he
    rw [hother c fun e => h.no_edge h0 a (e ▸ he)]
    exact h.used a c he
  · intro c; rw [href]; exact h.count c
  · intro c hc hnd
    rw [hother c fun e => hnd (e ▸ hb)] at hc ⊢
    exact h.dead c hc hnd
  · intro c; rw [halloc, href]; exact h.dying c

/-- An object without edges has been released. -/
theorem leave (h : GraphOk g s) {b : BoId} {X : List BoId} (hX : g.dying = b :: X)
    (hout : g.out b = []) (hl : (s.bos b).relocs = []) : GraphOk { g with dying := X } s := by
  refine ⟨h.fresh, h.unalloc, h.ranked, h.used, h.count, fun c hc hnd => ?_, fun c hc => ?_⟩
  · by_cases hcb : c = b
    · subst hcb
      exact ⟨hout, hl⟩
    · exact h.dead c hc (by rw [hX]; exact List.not_mem_cons_of_ne_of_not_mem hcb hnd)
  · exact h.dying c (by rw [hX]; exact List.mem_cons_of_mem _ hc)

/-- The memory of an object without references goes back. -/
theorem free {s' : Bufmgr} (h : GraphOk g s) {b : BoId} (hb : (s.bos b).refcount = 0)
    (hbd : b ∉ g.dying) (hn : s'.nextBo = s.nextBo) (hbos : s'.bos = Function.update s.bos b {}) :
    GraphOk g s' := by
  have hself : s'.bos b = {} := by rw [hbos, Function.update_self]
  have hother : ∀ c, c ≠ b → s'.bos c = s.bos c := fun c hc => by rw [hbos, Function.update_of_ne hc]
  have href : ∀ c, (s'.bos c).refcount = (s.bos c).refcount := by
    intro c
    by_cases hcb : c = b
    · rw [hcb, hself, hb]
    · rw [hother c hcb]
  constructor
  · intro c hc
    by_cases hcb : c = b
    · rw [hcb, hself]
    · rw [hother c hcb]; exact h.fresh c (hn ▸ hc)
  · intro c hc
    rw [href]
    by_cases hcb : c = b
    · rw [hcb]; exact hb
    · rw [hother c hcb] at hc; exact h.unalloc c hc
  · exact h.ranked
  · intro a c he
    rw [hother c fun e => h.no_edge hb a (e ▸ he)]
    exact h.used a c he
  · intro c; rw [href, hn]; exact h.count c
  · intro c hc hnd
    rw [href] at hc
    by_cases hcb : c = b
    · rw [hcb, hself]; exact ⟨(h.dead b hb hbd).1, rfl⟩
    · rw [hother c hcb]; exact h.dead c hc hnd
  · intro c hc
    rw [hother c fun e => hbd (e ▸ hc)]
    exact h.dying c hc

/-! ### New objects and new edges -/

/-- A new object, with `k` references of callers. -/
theorem alloc {s' : Bufmgr} (h : GraphOk g s) {bo : Bo} {k : Nat} (hn : s'.nextBo = s.nextBo + 1)
    (hbos : s'.bos = Function.update s.bos s.nextBo bo) (ha : bo.allocated = true)
    (hr : bo.refcount = k) (hl : bo.relocs = []) :
    GraphOk { g with callers := Function.update g.callers s.nextBo (g.callers s.nextBo + k) } s' := by
  have hself : s'.bos s.nextBo = bo := by rw [hbos, Function.update_self]
  have hother : ∀ c, c ≠ s.nextBo → s'.bos c = s.bos c := fun c hc => by
    rw [hbos, Function.update_of_ne hc]
  have hun := h.fresh s.nextBo (Nat.le_refl _)
  have h0 := h.unalloc _ hun
  have hnd : s.nextBo ∉ g.dying := fun hin => by
    rw [(h.dying _ hin).1] at hun
    cases hun
  have hcount0 := h.count s.nextBo
  have hout := (h.dead _ h0 hnd).1
  constructor
  · intro c hc
    rw [hn] at hc
    rw [hother c (Nat.ne_of_gt (Nat.lt_of_succ_le hc))]
    exact h.fresh c (Nat.le_of_succ_le hc)
  · intro c hc
    by_cases hcb : c = s.nextBo
    · rw [hcb, hself, ha] at hc
      cases hc
    · rw [hother c hcb] at hc ⊢
      exact h.unalloc c hc
  · exact h.ranked
  · intro a c he
    rw [hother c fun e => h.no_edge h0 a (e ▸ he)]
    exact h.used a c he
  · intro c
    show _ = Function.update g.callers s.nextBo (g.callers s.nextBo + k) c + g.pend.count c
      + incoming g.out s'.nextBo c
    rw [hn, incoming_succ hout]
    by_cases hcb : c = s.nextBo
    · rw [hcb, hself, Function.update_self, hr]
      omega
    · rw [hother c hcb, Function.update_of_ne hcb]
      exact h.count c
  · intro c hc hcd
    by_cases hcb : c = s.nextBo
    · rw [hcb, hself]
      exact ⟨hout, hl⟩
    · rw [hother c hcb] at hc ⊢
      exact h.dead c hc hcd
  · intro c hc
    rw [hother c fun e => hnd (e ▸ hc)]
    exact h.dying c hc

end GraphOk

end LibDrm.Gem
