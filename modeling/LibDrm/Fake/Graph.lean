/-
# `LibDrm.Fake.Graph` — the relocations as a graph

`calculate_domains` follows the relocations without marks, so it returns only when
there is no cycle: the batch is accessible (`Acc`), and no buffer that it reaches
reaches itself.  `post_submit` takes the marks and the domains back.
-/
import LibDrm.Fake.Release
import Mathlib.Logic.Relation

open Relation

/-- What is accessible does not reach itself. -/
theorem Acc.not_reaches_self {α : Type} {r : α → α → Prop} {a : α} (h : Acc (fun x y => r y x) a) :
    ∀ b, r a b → ¬ ReflTransGen r b a := by
  induction h with
  | intro a _ ih =>
      intro b hab hba
      rcases ReflTransGen.cases_head hba with rfl | ⟨c, hbc, hca⟩
      · exact ih b hab b hab .refl
      · exact ih b hab c hbc (hca.tail hab)

namespace LibDrm.Fake

variable {T X : BoId → Prop} {s s' s₁ : State} {b c d : BoId} {bo bo' : Bo}

theorem CoreSame.some (h : CoreSame s s') (hb : s.bo b = some bo) : ∃ bo', s'.bo b = some bo' ∧ bo'.core = bo.core := by
  have hmap := h b
  rw [hb] at hmap
  exact Option.map_eq_some_iff.mp hmap

theorem CoreSame.symm (h : CoreSame s s') : CoreSame s' s := fun c => (h c).symm

/-- Two buffers with the same core have the same targets. -/
theorem targets_of_core (h : bo'.core = bo.core) : bo'.relocs.map Reloc.target = bo.relocs.map Reloc.target := by
  have hrelocs : bo'.core.relocs = bo.core.relocs := by rw [h]
  have := congrArg (List.map Reloc.target) hrelocs
  simpa [Bo.core, Function.comp_def] using this

theorem CoreSame.targets (h : CoreSame s s') (ht : Targets s c d) : Targets s' c d := by
  obtain ⟨bo, hb, r, hr, hd⟩ := ht
  obtain ⟨bo', hb', hcore⟩ := h.some hb
  have hmem : d ∈ bo'.relocs.map Reloc.target := by
    rw [targets_of_core hcore]
    exact List.mem_map.mpr ⟨r, hr, hd⟩
  obtain ⟨r', hr', hd'⟩ := List.mem_map.mp hmem
  exact ⟨bo', hb', r', hr', hd'⟩

theorem CoreSame.targets_eq (h : CoreSame s s') : Targets s' = Targets s := by
  funext c d
  exact propext ⟨h.symm.targets, h.targets⟩

/-- There is no cycle behind the buffer. -/
def Acyclic (s : State) (b : BoId) : Prop := Acc (fun x y => Targets s y x) b

/-- A buffer without its mark and its domains. -/
def Bo.unmarked (bo : Bo) : Bo := { bo with validated := false, readDomains := 0, writeDomain := 0 }

/-- A buffer without its domains. -/
def Bo.undomained (bo : Bo) : Bo := { bo with readDomains := 0, writeDomain := 0 }

/-- Marks and domains do not matter to the copies. -/
theorem BoOk.remarked (h : BoOk s b bo) (heq : bo'.unmarked = bo.unmarked) : BoOk s b bo' := by
  have h' : BoOk s b bo.unmarked := ⟨h.fits, h.bounded, h.backing, h.card, h.exclusive, h.mapped, h.virtual⟩
  rw [← heq] at h'
  exact ⟨h'.fits, h'.bounded, h'.backing, h'.card, h'.exclusive, h'.mapped, h'.virtual⟩

theorem Inv.remark (hs : Inv Nobody X s) (hb : s.bo b = some bo) (heq : bo'.unmarked = bo.unmarked) :
    Inv Nobody X (s.setBo b bo') := by
  have hlike : bo.unmarked.Like bo'.unmarked := by
    rw [heq]
    exact ⟨rfl, rfl, rfl, rfl, rfl⟩
  have hlike' : bo.Like bo' := ⟨hlike.block, hlike.size, hlike.alignment, hlike.flags, hlike.isStatic⟩
  exact ⟨hs.toMemOk.setBo b bo', hs.toBosOk.setBo hb hlike' (fun hX => (hs.bos b bo hX hb).remarked heq)
    (fun ⟨_, h, _⟩ => h.elim) fun h => h.elim⟩

/-- What `calculate_domains` leaves alone. -/
structure Domained (s s' : State) : Prop where
  bo : ∀ c, (s'.bo c).map Bo.undomained = (s.bo c).map Bo.undomained
  content : s'.content = s.content
  onHardware : s'.onHardware = s.onHardware

theorem Domained.refl (s : State) : Domained s s := ⟨fun _ => rfl, rfl, rfl⟩

theorem Domained.trans {s'' : State} (h : Domained s s') (h' : Domained s' s'') : Domained s s'' :=
  ⟨fun c => (h'.bo c).trans (h.bo c), h'.content.trans h.content, h'.onHardware.trans h.onHardware⟩

theorem Domained.setBo (hb : s.bo b = some bo) (h : bo'.undomained = bo.undomained) : Domained s (s.setBo b bo') := by
  refine ⟨fun c => ?_, rfl, rfl⟩
  by_cases hcb : c = b
  · subst hcb
    rw [setBo_self, hb, Option.map_some, Option.map_some, h]
  · rw [setBo_of_ne hcb]

theorem Domained.some (h : Domained s s') (hb : s'.bo b = some bo') :
    ∃ bo, s.bo b = some bo ∧ bo.undomained = bo'.undomained := by
  have hmap := h.bo b
  rw [hb] at hmap
  exact Option.map_eq_some_iff.mp hmap.symm

theorem Domained.core (h : Domained s s') : CoreSame s s' := by
  intro c
  have hcore : ∀ o : Option Bo, o.map Bo.core = (o.map Bo.undomained).map Bo.core := by
    intro o
    cases o <;> rfl
  rw [hcore (s'.bo c), h.bo c, ← hcore]

theorem calculateDomains_ensures (fuel : Nat) : ∀ (b : BoId) (s : State), Inv Nobody X s →
    Ensures (calculateDomains fuel b s) fun s' => Inv Nobody X s' ∧ Domained s s' ∧ Acyclic s b := by
  induction fuel with
  | zero => exact fun _ _ _ => .error
  | succ fuel ih =>
      intro b s hs
      unfold calculateDomains
      refine (getBo_ensures b s).bind fun bo hb => ?_
      -- the targets of the relocations that are done are accessible
      have hloop := Ensures.foldlM_done (f := domainsOf (calculateDomains fuel)) (l := bo.relocs)
        (I := fun done s' => Inv Nobody X s' ∧ Domained s s' ∧ ∀ r ∈ done, Acyclic s r.target) (s := s)
        ⟨hs, .refl s, nofun⟩ ?_
      · refine hloop.mono ?_
        rintro s' ⟨hs', hdom, hacc⟩
        refine ⟨hs', hdom, Acc.intro b ?_⟩
        rintro d ⟨bo', hb', r, hr, rfl⟩
        cases hb.symm.trans hb'
        exact hacc r hr
      · rintro done r rest s₁ _ ⟨hs₁, hdom₁, hacc⟩
        unfold domainsOf
        refine (ih r.target s₁ hs₁).bind fun s₂ hs₂ => ?_
        obtain ⟨hs₂, hdom₂, hacc₂⟩ := hs₂
        refine (modifyBo_ensures r.target _ s₂).mono ?_
        rintro s₃ ⟨tbo, htbo, rfl⟩
        refine ⟨hs₂.remark htbo rfl, (hdom₁.trans hdom₂).trans (.setBo htbo rfl), fun r' hr' => ?_⟩
        rcases List.mem_append.mp hr' with hr' | hr'
        · exact hacc r' hr'
        · rw [List.mem_singleton.mp hr']
          unfold Acyclic at hacc₂ ⊢
          rw [← hdom₁.core.targets_eq]
          exact hacc₂

/-- `post_submit` changes marks and domains. -/
theorem postSubmit_ensures (fuel : Nat) : ∀ (b : BoId) (s : State), Inv Nobody X s →
    Ensures (postSubmit fuel b s) fun s' => Inv Nobody X s' ∧ s'.content = s.content ∧ s'.onHardware = s.onHardware ∧
      ∀ c, (s'.bo c).map Bo.unmarked = (s.bo c).map Bo.unmarked := by
  induction fuel with
  | zero => exact fun _ _ _ => .error
  | succ fuel ih =>
      intro b s hs
      unfold postSubmit
      refine Ensures.bind_any fun bo => ?_
      have hloop := Ensures.foldlM (f := postSubmitOf (postSubmit fuel)) (l := bo.relocs)
        (I := fun s' => Inv Nobody X s' ∧ s'.content = s.content ∧ s'.onHardware = s.onHardware ∧
          ∀ c, (s'.bo c).map Bo.unmarked = (s.bo c).map Bo.unmarked)
        (s := s) ⟨hs, rfl, rfl, fun _ => rfl⟩ ?_
      · refine hloop.bind fun s₁ hs₁ => (getBo_ensures b s₁).bind fun bo₁ hb₁ => Ensures.bind_any fun _ => .pure ?_
        obtain ⟨hs₁, hcontent, hhw, hsame⟩ := hs₁
        refine ⟨hs₁.remark hb₁ rfl, hcontent, hhw, fun c => ?_⟩
        rw [← hsame c]
        by_cases hcb : c = b
        · subst hcb
          rw [setBo_self, hb₁]
          rfl
        · rw [setBo_of_ne hcb]
      · rintro s₁ r ⟨hs₁, hcontent, hhw, hsame⟩
        unfold postSubmitOf
        refine Ensures.bind_any fun tbo => ?_
        split
        · refine (ih r.target s₁ hs₁).mono ?_
          rintro s₂ ⟨hs₂, hcontent₂, hhw₂, hsame₂⟩
          exact ⟨hs₂, hcontent₂.trans hcontent, hhw₂.trans hhw, fun c => (hsame₂ c).trans (hsame c)⟩
        · exact .pure ⟨hs₁, hcontent, hhw, hsame⟩

end LibDrm.Fake
