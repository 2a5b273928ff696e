/-
# `LibDrm.Fake.Walks` — the walks over the relocations come to an end

Three functions call themselves for the targets of a buffer's relocations:

    calculate_domains            for every target
    reloc_and_validate_buffer    for those that are not validated; a buffer is marked after its targets
    post_submit                  for those that are validated; the mark goes after the targets

`emit_reloc` takes any buffer for a target, also the one that the relocation is in.  The walks end for
every buffer if no buffer reaches itself; `calculate_domains` never ends for one that does, unless it
first meets a target that is gone.  Nothing but `emit_reloc` adds to the graph, so the walks end in
every run whose relocations lead to buffers that do not lead back (`walks_terminate`).

What the other two wait for on their way, the hardware, is not a matter of the walk.
-/
import LibDrm.Fake.Relocs
import LibDrm.Lib.Recursion
import Mathlib.Data.Set.Finite.Lattice

open Relation

namespace LibDrm.Fake

variable {s s' s'' s₀ : State} {b c d : BoId} {bo bo' : Bo} {r : Reloc} {env : Env}

/-! ## Where the relocations lead -/

def Bo.targets (bo : Bo) : List BoId := bo.relocs.map Reloc.target

/-- The same buffers have relocations to the same targets. -/
def SameTargets (s s' : State) : Prop := ∀ c, (s'.bo c).map Bo.targets = (s.bo c).map Bo.targets

theorem SameTargets.refl (s : State) : SameTargets s s := fun _ => rfl

theorem SameTargets.trans (h : SameTargets s s') (h' : SameTargets s' s'') : SameTargets s s'' :=
  fun c => (h' c).trans (h c)

theorem sameTargets_of_relocs (h : ∀ c, (s'.bo c).map Bo.relocs = (s.bo c).map Bo.relocs) : SameTargets s s' := by
  intro c
  have hmap := congrArg (Option.map (List.map Reloc.target)) (h c)
  rw [Option.map_map, Option.map_map] at hmap
  exact hmap

theorem Quiet.sameTargets (h : Quiet s s') : SameTargets s s' := sameTargets_of_relocs h.relocs

theorem SameTargets.some (h : SameTargets s s') (hb : s'.bo b = some bo') :
    ∃ bo, s.bo b = some bo ∧ bo.targets = bo'.targets := by
  have hmap := h b
  rw [hb] at hmap
  exact Option.map_eq_some_iff.mp hmap.symm

theorem SameTargets.symm (h : SameTargets s s') : SameTargets s' s := fun c => (h c).symm

theorem targets_iff : Targets s c d ↔ ∃ bo, s.bo c = some bo ∧ d ∈ bo.targets := by
  simp only [Targets, Bo.targets, List.mem_map]

theorem SameTargets.targets_imp (h : SameTargets s s') (ht : Targets s' c d) : Targets s c d := by
  obtain ⟨bo', hc, hd⟩ := (targets_iff).mp ht
  obtain ⟨bo, hb, heq⟩ := h.some hc
  exact (targets_iff).mpr ⟨bo, hb, heq ▸ hd⟩

theorem SameTargets.targets_eq (h : SameTargets s s') : Targets s' = Targets s := by
  funext c d
  exact propext ⟨h.targets_imp, h.symm.targets_imp⟩

theorem SameTargets.isSome (h : SameTargets s s') (c : BoId) : (s'.bo c).isSome = (s.bo c).isSome := by
  have hmap := congrArg Option.isSome (h c)
  rwa [Option.isSome_map, Option.isSome_map] at hmap

theorem sameTargets_setBo (hb : s.bo b = some bo) (h : bo'.targets = bo.targets) : SameTargets s (s.setBo b bo') := by
  intro c
  by_cases hcb : c = b
  · subst hcb
    rw [setBo_self, hb, Option.map_some, Option.map_some, h]
  · rw [setBo_of_ne hcb]

/-- The relocation is patched, and leads where it led. -/
theorem applyReloc_sameTargets (env : Env) (b : BoId) (i : Nat) (s : State) :
    Ensures (applyReloc env b i s) (SameTargets s) := by
  unfold applyReloc
  refine (getBo_ensures b s).bind fun bo hb => (deref_ensures _).bind fun r hr => Ensures.bind_any fun tbo => ?_
  split
  · exact .pure (.refl s)
  · have hrest : ∀ s₁, Quiet s s₁ → Ensures (do
        let s ← writeVirtual b r.offset.toNat (bytes32 (UInt32.ofNat ((tbo.offset + r.delta.toNat) % 2 ^ 32).toNat)) s₁
        s.modifyBo b fun bo => { bo with
          relocs := bo.relocs.set i { r with lastTargetOffset := UInt32.ofNat (tbo.offset % 2 ^ 32).toNat } })
        (SameTargets s) := by
      intro s₁ hquiet
      refine (writeVirtual_records b _ _ s₁).bind fun s₂ h₂ => (modifyBo_ensures b _ s₂).mono ?_
      rintro s₃ ⟨bo₂, hb₂, rfl⟩
      have hrelocs := (h₂.2 b).trans (hquiet.relocs b)
      rw [hb₂, hb] at hrelocs
      have hsame : bo₂.relocs = bo.relocs := Option.some.inj hrelocs
      refine (hquiet.sameTargets.trans (sameTargets_of_relocs h₂.2)).trans (sameTargets_setBo hb₂ ?_)
      have htarget : (bo.relocs.map Reloc.target)[i]? = some r.target := by rw [List.getElem?_map, hr, Option.map_some]
      obtain ⟨hi, hget⟩ := List.getElem?_eq_some_iff.mp htarget
      show List.map Reloc.target (bo₂.relocs.set i _) = List.map Reloc.target bo₂.relocs
      rw [List.map_set, hsame, ← hget]
      exact List.set_getElem_self hi
    dsimp only
    split
    · exact (boMapLocked_quiet env b true s).bind fun r hr => hrest r.2 hr
    · exact hrest s (.refl s)

/-! ## The bodies of the walks -/

def domainsBody (again : BoId → State → Except Fault State) (b : BoId) (s : State) : Except Fault State := do
  let bo ← s.getBo b
  bo.relocs.foldlM (domainsOf again) s

def validateBody (env : Env) (again : BoId → State → Except Fault (Int × State)) (b : BoId) (s : State) :
    Except Fault (Int × State) := do
  let bo ← s.getBo b
  assert (bo.mapCount = 0)
  let (ret, s) ← relocLoop env again b bo.relocs.length 0 s
  if ret ≠ 0 then return (ret, s)
  else do
    let s ← unmapIfMapped b s
    let s ← markCardDirty env b s
    boValidate env b s

def submitBody (again : BoId → State → Except Fault State) (b : BoId) (s : State) : Except Fault State := do
  let bo ← s.getBo b
  let s ← bo.relocs.foldlM (postSubmitOf again) s
  let bo ← s.getBo b
  assert (bo.mapCount = 0)
  return s.setBo b { bo with validated := false, readDomains := 0, writeDomain := 0 }

theorem calculateDomains_eq (fuel : Nat) : calculateDomains fuel = Recursion.iterate domainsBody .endless fuel := by
  induction fuel with
  | zero => rfl
  | succ fuel ih =>
      rw [Recursion.iterate, ← ih]
      rfl

theorem relocAndValidateBuffer_eq (env : Env) (fuel : Nat) :
    relocAndValidateBuffer env fuel = Recursion.iterate (validateBody env) .endless fuel := by
  induction fuel with
  | zero => rfl
  | succ fuel ih =>
      rw [Recursion.iterate, ← ih]
      rfl

theorem postSubmit_eq (fuel : Nat) : postSubmit fuel = Recursion.iterate submitBody .endless fuel := by
  induction fuel with
  | zero => rfl
  | succ fuel ih =>
      rw [Recursion.iterate, ← ih]
      rfl

/-- The three walks from a buffer come to an end. -/
structure WalksEnd (env : Env) (s : State) (b : BoId) : Prop where
  domains : Recursion.Ends domainsBody b s
  validate : Recursion.Ends (validateBody env) b s
  submit : Recursion.Ends submitBody b s

/-! ## They lead to the targets, and leave these as they are -/

section Bodies

variable {again again' : BoId → State → Except Fault State} {againV againV' : BoId → State → Except Fault (Int × State)}
  {rank : BoId → Nat}

theorem mem_targets (hs : SameTargets s₀ s) (hb : s.bo b = some bo) (hr : r ∈ bo.relocs) : Targets s₀ b r.target := by
  rw [← hs.targets_eq]
  exact ⟨bo, hb, r, hr, rfl⟩

theorem domainsOf_keeps (h : Recursion.Keeps (SameTargets s₀) id again) (hs : SameTargets s₀ s) (r : Reloc) :
    Ensures (domainsOf again s r) (SameTargets s₀) := by
  refine (h r.target s hs).bind fun s₁ hs₁ => ?_
  exact (modifyBo_quiet r.target _ (by exact fun _ => rfl)).mono fun s₂ h₂ => SameTargets.trans hs₁ h₂.sameTargets

theorem postSubmitOf_keeps (h : Recursion.Keeps (SameTargets s₀) id again) (hs : SameTargets s₀ s) (r : Reloc) :
    Ensures (postSubmitOf again s r) (SameTargets s₀) := by
  refine Ensures.bind_any fun tbo => ?_
  split
  · exact h r.target s hs
  · exact .pure hs

theorem domainsBody_keeps (h : Recursion.Keeps (SameTargets s₀) id again) :
    Recursion.Keeps (SameTargets s₀) id (domainsBody again) :=
  fun _ _ hs => Ensures.bind_any fun _ => Ensures.foldlM hs fun _ r hs' => domainsOf_keeps h hs' r

theorem submitBody_keeps (h : Recursion.Keeps (SameTargets s₀) id again) :
    Recursion.Keeps (SameTargets s₀) id (submitBody again) := by
  intro b s hs
  refine Ensures.bind_any fun _ => (Ensures.foldlM hs fun _ r hs' => postSubmitOf_keeps h hs' r).bind fun s₁ hs₁ => ?_
  exact (getBo_ensures b s₁).bind fun bo hb => Ensures.bind_any fun _ =>
    .pure (SameTargets.trans hs₁ (sameTargets_setBo hb rfl))

/-- What follows the call for a target in the loop of `reloc_and_validate_buffer`. -/
def relocRest (env : Env) (again : BoId → State → Except Fault (Int × State)) (b : BoId) (n i : Nat) (q : Int × State) :
    Except Fault (Int × State) :=
  if q.1 ≠ 0 then do
    let s ← unmapIfMapped b q.2
    return (q.1, s)
  else do
    let s ← applyReloc env b i q.2
    relocLoop env again b n (i + 1) s

theorem relocRest_keeps {b : BoId} {n i : Nat} (hloop : ∀ s, SameTargets s₀ s →
    Ensures (relocLoop env againV b n (i + 1) s) fun q => SameTargets s₀ q.2) (q : Int × State) (hq : SameTargets s₀ q.2) :
    Ensures (relocRest env againV b n i q) fun q => SameTargets s₀ q.2 := by
  unfold relocRest
  split
  · exact (unmapIfMapped_quiet b q.2).bind fun s' h => .pure (hq.trans h.sameTargets)
  · exact (applyReloc_sameTargets env b i q.2).bind fun s' h => hloop s' (hq.trans h)

theorem relocLoop_keepsTargets (h : Recursion.Keeps (SameTargets s₀) Prod.snd againV) (b : BoId) (n : Nat) :
    ∀ i s, SameTargets s₀ s → Ensures (relocLoop env againV b n i s) fun q => SameTargets s₀ q.2 := by
  induction n with
  | zero => exact fun _ s hs => .ok hs
  | succ n ih =>
      intro i s hs
      unfold relocLoop
      refine Ensures.bind_any fun bo => Ensures.bind_any fun r => Ensures.bind_any fun tbo => ?_
      split
      · exact relocRest_keeps (ih (i + 1)) (0, s) hs
      · exact (h r.target s hs).bind fun q hq => relocRest_keeps (ih (i + 1)) q hq

theorem validateBody_keeps (h : Recursion.Keeps (SameTargets s₀) Prod.snd againV) :
    Recursion.Keeps (SameTargets s₀) Prod.snd (validateBody env againV) := by
  intro b s hs
  refine Ensures.bind_any fun bo => Ensures.bind_any fun _ => ?_
  refine (relocLoop_keepsTargets h b bo.relocs.length 0 s hs).bind fun q hq => ?_
  dsimp only
  split
  · exact .pure hq
  · refine (unmapIfMapped_quiet b q.2).bind fun s₁ h₁ => (markCardDirty_quiet env b s₁).bind fun s₂ h₂ => ?_
    exact (boValidate_quiet env b s₂).mono fun r h₃ =>
      ((hq.trans h₁.sameTargets).trans h₂.sameTargets).trans h₃.sameTargets

/-- The calls of `calculate_domains` are for the targets. -/
theorem domainsBody_agree (hrank : ∀ c d, Targets s₀ c d → rank d < rank c)
    (h : Recursion.Keeps (SameTargets s₀) id again)
    (hsame : Recursion.AgreeBelow (SameTargets s₀) rank (rank b) again again') (hs : SameTargets s₀ s) :
    domainsBody again b s = domainsBody again' b s := by
  refine Recursion.bind_agree (getBo_ensures b s) fun bo hb => ?_
  refine Recursion.foldlM_agree (I := SameTargets s₀) (fun r _ s' hs' => domainsOf_keeps h hs' r) (fun r hr s' hs' => ?_) hs
  unfold domainsOf
  rw [hsame r.target s' (hrank _ _ (mem_targets hs hb hr)) hs']

theorem submitBody_agree (hrank : ∀ c d, Targets s₀ c d → rank d < rank c)
    (h : Recursion.Keeps (SameTargets s₀) id again)
    (hsame : Recursion.AgreeBelow (SameTargets s₀) rank (rank b) again again') (hs : SameTargets s₀ s) :
    submitBody again b s = submitBody again' b s := by
  refine Recursion.bind_agree (getBo_ensures b s) fun bo hb => ?_
  have hloop : bo.relocs.foldlM (postSubmitOf again) s = bo.relocs.foldlM (postSubmitOf again') s := by
    refine Recursion.foldlM_agree (I := SameTargets s₀) (fun r _ s' hs' => postSubmitOf_keeps h hs' r)
      (fun r hr s' hs' => ?_) hs
    unfold postSubmitOf
    rw [hsame r.target s' (hrank _ _ (mem_targets hs hb hr)) hs']
  rw [hloop]

theorem relocLoop_agree (hrank : ∀ c d, Targets s₀ c d → rank d < rank c)
    (h : Recursion.Keeps (SameTargets s₀) Prod.snd againV)
    (hsame : Recursion.AgreeBelow (SameTargets s₀) rank (rank b) againV againV') (n : Nat) :
    ∀ i s, SameTargets s₀ s → relocLoop env againV b n i s = relocLoop env againV' b n i s := by
  induction n with
  | zero => exact fun _ _ _ => rfl
  | succ n ih =>
      intro i s hs
      have hrest : ∀ q : Int × State, SameTargets s₀ q.2 → relocRest env againV b n i q = relocRest env againV' b n i q := by
        intro q hq
        unfold relocRest
        split
        · rfl
        · exact Recursion.bind_agree (applyReloc_sameTargets env b i q.2) fun s' h' => ih (i + 1) s' (hq.trans h')
      unfold relocLoop
      refine Recursion.bind_agree (getBo_ensures b s) fun bo hb => ?_
      refine Recursion.bind_agree (deref_ensures _) fun r hr => ?_
      have hlt := hrank _ _ (mem_targets hs hb (List.mem_of_getElem? hr))
      refine Recursion.bind_agree (getBo_ensures r.target s) fun tbo _ => ?_
      split
      · exact hrest (0, s) hs
      · rw [← hsame r.target s hlt hs]
        exact Recursion.bind_agree (h r.target s hs) hrest

theorem validateBody_agree (hrank : ∀ c d, Targets s₀ c d → rank d < rank c)
    (h : Recursion.Keeps (SameTargets s₀) Prod.snd againV)
    (hsame : Recursion.AgreeBelow (SameTargets s₀) rank (rank b) againV againV') (hs : SameTargets s₀ s) :
    validateBody env againV b s = validateBody env againV' b s := by
  refine Recursion.bind_agree (getBo_ensures b s) fun bo _ => congrArg (_ >>= ·) (funext fun _ => ?_)
  rw [relocLoop_agree hrank h hsame bo.relocs.length 0 s hs]

end Bodies

/-- Where every relocation leads to a buffer of smaller rank the walks come to an end. -/
theorem walksEnd_of_rank {rank : BoId → Nat} (hrank : ∀ c d, Targets s c d → rank d < rank c) (env : Env) (b : BoId) :
    WalksEnd env s b where
  domains := Recursion.ends_of_rank (I := SameTargets s) id rank
    (fun _ h => domainsBody_keeps h) (fun _ _ _ h hsame _ hs => domainsBody_agree hrank h hsame hs) (.refl s)
  validate := Recursion.ends_of_rank (I := SameTargets s) Prod.snd rank
    (fun _ h => validateBody_keeps h) (fun _ _ _ h hsame _ hs => validateBody_agree hrank h hsame hs) (.refl s)
  submit := Recursion.ends_of_rank (I := SameTargets s) id rank
    (fun _ h => submitBody_keeps h) (fun _ _ _ h hsame _ hs => submitBody_agree hrank h hsame hs) (.refl s)

/-! ## Graphs without a cycle -/

def FinitelyMany (s : State) : Prop := {c | (s.bo c).isSome}.Finite

/-- The relocations lead to buffers that are there. -/
def TargetsExist (s : State) : Prop := ∀ c d, Targets s c d → (s.bo d).isSome

def Cyclic (s : State) (b : BoId) : Prop := TransGen (Targets s) b b

theorem TargetsExist.reached (h : TargetsExist s) (hcd : TransGen (Targets s) c d) : (s.bo d).isSome := by
  obtain ⟨x, -, hxd⟩ := TransGen.tail'_iff.mp hcd
  exact h x d hxd

/-- Every buffer has finitely many relocations. -/
theorem FinitelyMany.targets (h : FinitelyMany s) : {d | ∃ c, Targets s c d}.Finite := by
  have hunion : (⋃ c ∈ {c | (s.bo c).isSome}, {d | Targets s c d}).Finite := by
    refine Set.Finite.biUnion h fun c _ => ?_
    cases hc : s.bo c with
    | none =>
        refine Set.Finite.subset Set.finite_empty fun d hd => ?_
        obtain ⟨bo, hbo, -⟩ := (targets_iff).mp hd
        cases hc.symm.trans hbo
    | some bo =>
        refine bo.targets.finite_toSet.subset fun d hd => ?_
        obtain ⟨bo', hbo', hd⟩ := (targets_iff).mp hd
        cases hc.symm.trans hbo'
        exact hd
  refine hunion.subset fun d ⟨c, hcd⟩ => ?_
  obtain ⟨bo, hbo, -⟩ := (targets_iff).mp hcd
  exact Set.mem_biUnion (show (s.bo c).isSome from hbo ▸ rfl) hcd

theorem walksEnd_of_acyclic (h : FinitelyMany s) (hacyclic : ∀ b, ¬ Cyclic s b) (env : Env) (b : BoId) : WalksEnd env s b :=
  walksEnd_of_rank (fun _ _ hcd => Recursion.reached_lt h.targets hacyclic hcd) env b

/-! ## Graphs with one -/

section Cycle

variable {e : Fault} {again : BoId → State → Except Fault State}

theorem getBo_of_isSome (hb : (s.bo b).isSome) : ∃ bo, s.bo b = some bo ∧ s.getBo b = .ok bo := by
  obtain ⟨bo, hbo⟩ := Option.isSome_iff_exists.mp hb
  exact ⟨bo, hbo, by rw [State.getBo, hbo]⟩

theorem domainsOf_within (hb : (s₀.bo r.target).isSome)
    (h : ∀ b s, (s₀.bo b).isSome → SameTargets s₀ s → Within (· = e) (again b s) (SameTargets s₀)) (hs : SameTargets s₀ s) :
    Within (· = e) (domainsOf again s r) (SameTargets s₀) := by
  refine (h r.target s hb hs).bind fun s₁ hs₁ => ?_
  obtain ⟨bo, hbo, hget⟩ := getBo_of_isSome (hs₁.isSome r.target ▸ hb)
  unfold State.modifyBo
  rw [hget]
  exact .pure (hs₁.trans (sameTargets_setBo hbo rfl))

theorem domains_within (hs₀ : TargetsExist s₀) (e : Fault) (n : Nat) : ∀ b s, (s₀.bo b).isSome → SameTargets s₀ s →
    Within (· = e) (Recursion.iterate domainsBody e n b s) (SameTargets s₀) := by
  induction n with
  | zero => exact fun _ _ _ _ => .error rfl
  | succ n ih =>
      intro b s hb hs
      obtain ⟨bo, hbo, hget⟩ := getBo_of_isSome (hs.isSome b ▸ hb)
      show Within _ (s.getBo b >>= _) _
      rw [hget]
      exact Recursion.foldlM_within (fun r hr s' hs' =>
        domainsOf_within (hs₀ _ _ (mem_targets hs hbo hr)) ih hs') hs

/-- On a cycle there is always a deeper call. -/
theorem domains_error (hs₀ : TargetsExist s₀) (e : Fault) (n : Nat) : ∀ b s, Cyclic s₀ b → SameTargets s₀ s →
    Recursion.iterate domainsBody e n b s = .error e := by
  induction n with
  | zero => exact fun _ _ _ _ => rfl
  | succ n ih =>
      intro b s hcycle hs
      obtain ⟨bo, hbo, hget⟩ := getBo_of_isSome (hs.isSome b ▸ hs₀.reached hcycle)
      obtain ⟨d, hbd, hdb⟩ := TransGen.head'_iff.mp hcycle
      rw [← hs.targets_eq] at hbd
      obtain ⟨bo', hbo', r, hr, rfl⟩ := hbd
      cases hbo.symm.trans hbo'
      show (s.getBo b >>= _) = _
      rw [hget]
      refine Recursion.foldlM_error (I := SameTargets s₀) (fun q hq s' hs' =>
        domainsOf_within (hs₀ _ _ (mem_targets hs hbo hq)) (domains_within hs₀ e n) hs') hr (fun s' hs' => ?_) hs
      have hback : Cyclic s₀ r.target := TransGen.tail' hdb (mem_targets hs hbo hr)
      unfold domainsOf
      rw [ih r.target s' hback hs']
      rfl

end Cycle

theorem not_walksEnd (h : TargetsExist s) (hcycle : Cyclic s b) (env : Env) : ¬ WalksEnd env s b := by
  intro hends
  have hne : Fault.endless ≠ Fault.abort := nofun
  exact Recursion.not_ends hne (fun e n => domains_error h e n b s hcycle (.refl s)) hends.domains

/-! ## What the calls do to the graph -/

/-- No relocation is added, and no buffers but finitely many. -/
structure Shrinks (s s' : State) : Prop where
  targets : ∀ c d, Targets s' c d → Targets s c d
  finite : FinitelyMany s → FinitelyMany s'

theorem Shrinks.trans (h : Shrinks s s') (h' : Shrinks s' s'') : Shrinks s s'' :=
  ⟨fun c d hcd => h.targets c d (h'.targets c d hcd), fun hs => h'.finite (h.finite hs)⟩

theorem SameTargets.shrinks (h : SameTargets s s') : Shrinks s s' where
  targets _ _ := h.targets_imp
  finite hs := by
    have hsame : {c | (s'.bo c).isSome} = {c | (s.bo c).isSome} := Set.ext fun c => by
      show (s'.bo c).isSome ↔ (s.bo c).isSome
      rw [h.isSome]
    unfold FinitelyMany
    rw [hsame]
    exact hs

theorem Quiet.shrinks (h : Quiet s s') : Shrinks s s' := h.sameTargets.shrinks

/-- A buffer without relocations is new, or what it was is forgotten. -/
theorem shrinks_update (b : BoId) (o : Option Bo) (ho : ∀ bo, o = some bo → bo.relocs = [])
    (h : s'.bo = Function.update s.bo b o) : Shrinks s s' where
  targets c d hcd := by
    obtain ⟨bo, hbo, r, hr, hrd⟩ := hcd
    rw [h] at hbo
    by_cases hcb : c = b
    · rw [hcb, Function.update_self] at hbo
      rw [ho bo hbo] at hr
      exact absurd hr List.not_mem_nil
    · rw [Function.update_of_ne hcb] at hbo
      exact ⟨bo, hbo, r, hr, hrd⟩
  finite hs := by
    refine (hs.insert b).subset fun c hc => ?_
    by_cases hcb : c = b
    · exact .inl hcb
    · refine .inr ?_
      show (s.bo c).isSome
      rwa [Set.mem_ofPred_eq, h, Function.update_of_ne hcb] at hc

theorem shrinks_forget (b : BoId) (s : State) : Shrinks s { s with bo := Function.update s.bo b none } :=
  shrinks_update b none (fun _ h => by cases h) rfl

theorem boAlloc_shrinks (size alignment : Nat) (s : State) :
    Ensures (boAlloc size alignment s) fun r => Shrinks s r.2 := by
  unfold boAlloc
  refine Ensures.bind_any fun _ => Ensures.bind_any fun _ => .pure (shrinks_update s.freshBo _ ?_ rfl)
  rintro bo ⟨⟩
  rfl

theorem boSubdata_sameTargets (env : Env) (b : BoId) (offset : Nat) (data : List UInt8) (s : State) :
    Ensures (boSubdata env b offset data s) fun r => SameTargets s r.2 := by
  unfold boSubdata
  split
  · exact .ok (.refl s)
  · refine (boMapLocked_quiet env b true s).bind fun r₁ h₁ => ?_
    dsimp only
    split
    · exact .pure h₁.sameTargets
    · refine (writeVirtual_records b offset data r₁.2).bind fun s₂ h₂ => ?_
      exact (boUnmapLocked_quiet b s₂).bind fun r h₃ =>
        .pure ((h₁.sameTargets.trans (sameTargets_of_relocs h₂.2)).trans h₃.sameTargets)

theorem relocAndValidateBuffer_sameTargets (env : Env) (fuel : Nat) (b : BoId) (s : State) :
    Ensures (relocAndValidateBuffer env fuel b s) fun r => SameTargets s r.2 := by
  rw [relocAndValidateBuffer_eq]
  exact Recursion.iterate_keeps Prod.snd (fun _ h => validateBody_keeps h) .endless fuel b s (.refl s)

theorem calculateDomains_sameTargets (fuel : Nat) (b : BoId) (s : State) :
    Ensures (calculateDomains fuel b s) (SameTargets s) := by
  rw [calculateDomains_eq]
  exact Recursion.iterate_keeps id (fun _ h => domainsBody_keeps h) .endless fuel b s (.refl s)

theorem postSubmit_sameTargets (fuel : Nat) (b : BoId) (s : State) : Ensures (postSubmit fuel b s) (SameTargets s) := by
  rw [postSubmit_eq]
  exact Recursion.iterate_keeps id (fun _ h => submitBody_keeps h) .endless fuel b s (.refl s)

theorem prepareExec_sameTargets (env : Env) (b : BoId) (s : State) : Ensures (prepareExec env b s) (SameTargets s) := by
  unfold prepareExec
  have hstart : SameTargets s { s with performedRendering := false } := .refl s
  refine (calculateDomains_sameTargets env.fuel b _).bind fun s₁ h₁ => ?_
  refine (modifyBo_quiet b _ (by exact fun _ => rfl)).bind fun s₂ h₂ => ?_
  have hs₂ := (hstart.trans h₁).trans h₂.sameTargets
  refine (relocAndValidateBuffer_sameTargets env env.fuel b s₂).bind fun r h₃ => ?_
  dsimp only
  split
  · refine (kickAllLocked_quiet r.2).bind fun s₄ h₄ => ?_
    have hfail : SameTargets s₄ { s₄ with fail := false } := .refl s₄
    refine (relocAndValidateBuffer_sameTargets env env.fuel b _).bind fun r₅ h₅ => Ensures.bind_any fun _ => ?_
    exact .pure ((((hs₂.trans h₃).trans h₄.sameTargets).trans hfail).trans h₅)
  · exact Ensures.bind (P := fun q => SameTargets s q.2) (.pure (hs₂.trans h₃)) fun q hq =>
      Ensures.bind_any fun _ => .pure hq

theorem boExec_sameTargets (env : Env) (b : BoId) (result : Int) (writes : List GpuWrite) (s : State) :
    Ensures (boExec env b result writes s) fun r => SameTargets s r.2 := by
  unfold boExec
  refine (prepareExec_sameTargets env b s).bind fun s₁ h₁ => ?_
  split
  · exact .pure h₁
  · have hwrites : Ensures (writes.foldlM gpuWrite s₁) (SameTargets s₁) :=
      Ensures.foldlM (.refl s₁) fun s' w hs' => Ensures.bind_any fun _ => .pure hs'
    refine hwrites.bind fun s₂ h₂ => (fenceValidated_same env s₂).bind fun s₃ h₃ => ?_
    have hfence : SameTargets s₂ s₃ := fun c => by rw [h₃.2]
    exact (postSubmit_sameTargets env.fuel b s₃).bind fun s₄ h₄ => .pure (((h₁.trans h₂).trans hfence).trans h₄)

theorem unreferenceLocked_shrinks (fuel : Nat) (b : BoId) (s : State) : Ensures (unreferenceLocked fuel b s) (Shrinks s) := by
  induction fuel generalizing b s with
  | zero => exact .error
  | succ fuel ih =>
      unfold unreferenceLocked
      refine (getBo_ensures b s).bind fun bo hb => ?_
      have hset : SameTargets s (s.setBo b { bo with refcount := bo.refcount - 1 }) := sameTargets_setBo hb rfl
      dsimp only
      split
      · exact .pure hset.shrinks
      · refine Ensures.bind_any fun _ => (freeBoBlock_quiet bo _).bind fun s₁ h₁ => ?_
        have hloop : Ensures (bo.relocs.foldlM (fun s r => unreferenceLocked fuel r.target s) s₁) (Shrinks s₁) :=
          Ensures.foldlM (SameTargets.refl s₁).shrinks fun s' r hs' => (ih r.target s').mono fun s'' h => hs'.trans h
        refine hloop.bind fun s₂ h₂ => .pure (((hset.shrinks.trans h₁.shrinks).trans h₂).trans (shrinks_forget b s₂))

/-- One relocation is added. -/
theorem emitReloc_targets (b : BoId) (offset : UInt32) (target : BoId) (targetOffset readDomains writeDomain : UInt32)
    (s : State) : Ensures (emitReloc b offset target targetOffset readDomains writeDomain s) fun r =>
      (∀ c d, Targets r.2 c d ↔ Targets s c d ∨ c = b ∧ d = target) ∧ (∀ c, (r.2.bo c).isSome = (s.bo c).isSome) ∧
      (s.bo target).isSome := by
  unfold emitReloc boReference
  refine Ensures.bind_any fun _ => Ensures.bind_any fun _ => ?_
  have hreference : Ensures (s.modifyBo target fun bo => { bo with refcount := bo.refcount + 1 }) fun s₁ =>
      SameTargets s s₁ ∧ (s.bo target).isSome := by
    refine (modifyBo_ensures target _ s).mono ?_
    rintro s₁ ⟨tbo, htbo, rfl⟩
    exact ⟨sameTargets_setBo htbo rfl, htbo ▸ rfl⟩
  refine hreference.bind fun s₁ ⟨h₁, htarget⟩ => Ensures.bind_any fun tbo => ?_
  refine (getBo_ensures b s₁).bind fun bo hb => .pure ⟨fun c d => ?_, fun c => ?_, htarget⟩
  · rw [← h₁.targets_eq]
    by_cases hcb : c = b
    · subst hcb
      simp only [targets_iff, setBo_self, hb, Option.some.injEq, exists_eq_left', true_and, Bo.targets, List.map_append,
        List.mem_append, List.map_cons, List.map_nil, List.mem_singleton]
    · simp only [targets_iff, setBo_of_ne hcb, hcb, false_and, or_false]
  · rw [← h₁.isSome c]
    by_cases hcb : c = b
    · rw [hcb, setBo_self, hb]
      rfl
    · rw [setBo_of_ne hcb]

/-! ## Runs -/

/-- The target of a relocation does not lead to the buffer that the relocation is in. -/
def Op.Outward (s : State) : Op → Prop
  | .emitReloc b _ target _ _ _ => ¬ ReflTransGen (Targets s) target b
  | _ => True

def State.OutwardStep (s s' : State) : Prop := ∃ (env : Env) (op : Op), op.Outward s ∧ op.run env s = .ok s'

def Walkable (s : State) : Prop := FinitelyMany s ∧ ∀ b, ¬ Cyclic s b

theorem Walkable.shrinks (h : Walkable s) (hs : Shrinks s s') : Walkable s' :=
  ⟨hs.finite h.1, fun b hb => h.2 b (TransGen.mono hs.targets b b hb)⟩

/-- The step lemma. -/
theorem Op.run_walkable (hs : Walkable s) (env : Env) (op : Op) (hop : op.Outward s) : Ensures (op.run env s) Walkable := by
  cases op with
  | alloc size alignment => exact (boAlloc_shrinks size alignment s).bind fun r h => .pure (hs.shrinks h)
  | reference b => exact (modifyBo_quiet b _ (by exact fun _ => rfl)).mono fun s' h => hs.shrinks h.shrinks
  | unreference b => exact (unreferenceLocked_shrinks env.fuel b s).mono fun s' h => hs.shrinks h
  | map b writeEnable => exact (boMapLocked_quiet env b writeEnable s).bind fun r h => .pure (hs.shrinks h.shrinks)
  | write b offset bytes =>
      exact (writeVirtual_records b offset bytes s).mono fun s' h => hs.shrinks (sameTargets_of_relocs h.2).shrinks
  | unmap b => exact (boUnmapLocked_quiet b s).bind fun r h => .pure (hs.shrinks h.shrinks)
  | subdata b offset data => exact (boSubdata_sameTargets env b offset data s).bind fun r h => .pure (hs.shrinks h.shrinks)
  | emitReloc b offset target targetOffset readDomains writeDomain =>
      refine (emitReloc_targets b offset target targetOffset readDomains writeDomain s).bind fun r h => .pure ⟨?_, ?_⟩
      · refine Set.Finite.subset hs.1 fun c hc => ?_
        rwa [Set.mem_ofPred_eq, h.2.1 c] at hc
      · exact fun c hc => hop (Recursion.cycle_of_edge (fun c d => (h.1 c d).mp) hc (hs.2 c))
  | exec b result writes => exact (boExec_sameTargets env b result writes s).bind fun r h => .pure (hs.shrinks h.shrinks)
  | wait b => exact (waitRenderingLocked_tidies env b s).mono fun s' h => hs.shrinks h.quiet.shrinks
  | evictAll => exact (evictAll_quiet env s).mono fun s' h => hs.shrinks h.shrinks

theorem State.Init.walkable (h : s.Init) : Walkable s := by
  obtain ⟨_, _, _, hnone, _⟩ := State.Init.empty h
  refine ⟨Set.Finite.subset Set.finite_empty fun c hc => ?_, fun b hb => ?_⟩
  · rw [Set.mem_ofPred_eq, hnone c] at hc
    cases hc
  · obtain ⟨d, ⟨bo, hbo, -⟩, -⟩ := TransGen.head'_iff.mp hb
    cases (hnone b).symm.trans hbo

theorem walkable_of_runs (h : Runs State.Init State.OutwardStep s) : Walkable s := by
  refine h.induct (I := Walkable) (fun _ => State.Init.walkable) ?_
  rintro s s' hs ⟨env, op, hop, hrun⟩
  exact op.run_walkable hs env hop s' hrun

/-- A relocation that leads back. -/
theorem emitReloc_not_walksEnd {offset : UInt32} {target : BoId} {targetOffset readDomains writeDomain : UInt32}
    {r : Int × State} (hr : emitReloc b offset target targetOffset readDomains writeDomain s = .ok r)
    (hexist : TargetsExist s) (hback : ReflTransGen (Targets s) target b) (env : Env) : ¬ WalksEnd env r.2 b := by
  obtain ⟨htargets, hsome, htarget⟩ := emitReloc_targets b offset target targetOffset readDomains writeDomain s r hr
  have hexist' : TargetsExist r.2 := by
    intro c d hcd
    rw [hsome]
    rcases (htargets c d).mp hcd with hcd | ⟨-, rfl⟩
    · exact hexist c d hcd
    · exact htarget
  have hcycle : Cyclic r.2 b := by
    refine TransGen.head' ((htargets b target).mpr (.inr ⟨rfl, rfl⟩)) ?_
    exact ReflTransGen.mono (fun c d hcd => (htargets c d).mpr (.inl hcd)) target b hback
  exact not_walksEnd hexist' hcycle env

theorem emitReloc_run {offset : UInt32} {target : BoId} {targetOffset readDomains writeDomain : UInt32} {r : Int × State}
    (hr : emitReloc b offset target targetOffset readDomains writeDomain s = .ok r) (env : Env) :
    (Op.emitReloc b offset target targetOffset readDomains writeDomain).run env s = .ok r.2 := by
  show (do return (← emitReloc b offset target targetOffset readDomains writeDomain s).2) = _
  rw [hr]
  rfl

/-- In every run whose relocations lead outward the walks come to an end.  The next relocation leaves it so
    exactly if it leads outward, too. -/
theorem walks_terminate (h : Runs State.Init State.OutwardStep s) :
    (∀ env b, WalksEnd env s b) ∧
      ∀ env b offset target targetOffset readDomains writeDomain r,
        emitReloc b offset target targetOffset readDomains writeDomain s = .ok r → TargetsExist s →
          ((∀ c, WalksEnd env r.2 c) ↔ ¬ ReflTransGen (Targets s) target b) := by
  obtain ⟨hfinite, hacyclic⟩ := walkable_of_runs h
  refine ⟨fun env => walksEnd_of_acyclic hfinite hacyclic env, ?_⟩
  intro env b offset target targetOffset readDomains writeDomain r hr hexist
  constructor
  · exact fun hends hback => emitReloc_not_walksEnd hr hexist hback env (hends b)
  · intro hout
    have hstep : State.OutwardStep s r.2 :=
      ⟨env, .emitReloc b offset target targetOffset readDomains writeDomain, hout, emitReloc_run hr env⟩
    obtain ⟨hfinite', hacyclic'⟩ := walkable_of_runs (h.step hstep)
    exact walksEnd_of_acyclic hfinite' hacyclic' env

/-- A step of any kind. -/
def State.AnyStep (s s' : State) : Prop := ∃ (env : Env) (op : Op), op.run env s = .ok s'

def State.AllocStep (s s' : State) : Prop := ∃ size alignment, (Op.alloc size alignment).run plainEnv s = .ok s'

theorem State.AllocStep.shrinks (h : s.AllocStep s') : Shrinks s s' := by
  obtain ⟨size, alignment, hrun⟩ := h
  exact (boAlloc_shrinks size alignment s).bind (fun r hr => .pure hr) s' hrun

theorem no_targets_of_allocs (h : Runs State.Init State.AllocStep s) : ∀ c d, ¬ Targets s c d := by
  refine h.induct (I := fun s => ∀ c d, ¬ Targets s c d) (fun s₀ h₀ c d => ?_) fun s s' hs hstep c d hcd =>
    hs c d (hstep.shrinks.targets c d hcd)
  rintro ⟨bo, hbo, -⟩
  cases ((State.Init.empty h₀).2.2.2.1 c).symm.trans hbo

theorem allocs_runs {ops : List Op} (hops : ∀ op ∈ ops, ∃ size alignment, op = .alloc size alignment)
    (h : playAll ops = some s) : Runs State.Init State.AllocStep s := by
  refine playAll_runs (P := fun op => ∃ size alignment, op = .alloc size alignment) ?_ hops h
  rintro op s s' ⟨size, alignment, rfl⟩ hrun
  exact ⟨size, alignment, hrun⟩

/-- Two buffers, and a relocation in the first to the second. -/
theorem walks_terminate_pair : ∃ s r, emitReloc 0 4 1 0 2 0 s = .ok r ∧ Targets r.2 0 1 ∧
    ∀ c, WalksEnd plainEnv r.2 c := by
  have hrun : ((playAll [.alloc 16 4, .alloc 8 4]).bind fun s => (emitReloc 0 4 1 0 2 0 s).toOption).isSome := by
    decide +kernel
  obtain ⟨r, hr⟩ := Option.isSome_iff_exists.mp hrun
  obtain ⟨s, hs, hr⟩ := Option.bind_eq_some_iff.mp hr
  have hemit : emitReloc 0 4 1 0 2 0 s = .ok r := toOption_eq_some hr
  have hallocs : Runs State.Init State.AllocStep s := allocs_runs (by simp) hs
  have hnone := no_targets_of_allocs hallocs
  have hruns : Runs State.Init State.OutwardStep s :=
    hallocs.mono fun _ _ ⟨size, alignment, h⟩ => ⟨plainEnv, .alloc size alignment, trivial, h⟩
  have hends := (walks_terminate hruns).2 plainEnv 0 4 1 0 2 0 r hemit fun c d hcd => absurd hcd (hnone c d)
  have htargets := (emitReloc_targets 0 4 1 0 2 0 s r hemit).1 0 1
  refine ⟨s, r, hemit, htargets.mpr (.inr ⟨rfl, rfl⟩), hends.mpr fun hback => ?_⟩
  rcases ReflTransGen.cases_head hback with heq | ⟨d, hd, -⟩
  · cases heq
  · exact hnone 1 d hd

/-- A relocation in a buffer to itself. -/
theorem walks_terminate_self : ∃ s, Runs State.Init State.AnyStep s ∧ Targets s 0 0 ∧ ¬ WalksEnd plainEnv s 0 := by
  have hrun : ((playAll [.alloc 16 4]).bind fun s => (emitReloc 0 4 0 0 2 0 s).toOption).isSome := by
    decide +kernel
  obtain ⟨r, hr⟩ := Option.isSome_iff_exists.mp hrun
  obtain ⟨s, hs, hr⟩ := Option.bind_eq_some_iff.mp hr
  have hemit : emitReloc 0 4 0 0 2 0 s = .ok r := toOption_eq_some hr
  have hallocs : Runs State.Init State.AllocStep s := allocs_runs (by simp) hs
  have hnone := no_targets_of_allocs hallocs
  have hruns : Runs State.Init State.AnyStep s :=
    hallocs.mono fun _ _ ⟨size, alignment, h⟩ => ⟨plainEnv, .alloc size alignment, h⟩
  refine ⟨r.2, hruns.step ⟨plainEnv, .emitReloc 0 4 0 0 2 0, emitReloc_run hemit plainEnv⟩, ?_, ?_⟩
  · exact ((emitReloc_targets 0 4 0 0 2 0 s r hemit).1 0 0).mpr (.inr ⟨rfl, rfl⟩)
  · exact emitReloc_not_walksEnd hemit (fun c d hcd => absurd hcd (hnone c d)) .refl plainEnv

end LibDrm.Fake
