/-
# `LibDrm.Fake.Mapping` — what a caller of map and unmap can count on

A buffer is mapped by the first `bo_map`; the further ones only count.  A buffer
without backing store is mapped where its block is, so that its first map needs
card memory (`Refused` says that there is none).

    bo_map      0 and a pointer, or an error and nothing has changed
    bo_unmap    takes one map back; the last one takes the pointer away

The count goes up before the memory is looked for, and stays up when there is
none.  The next map finds a count and returns 0, where there is no pointer
(`map_contract_refused`).  A static buffer is always mapped and does not count.
-/
import LibDrm.Fake.Quiet
import LibDrm.Lib.Along

namespace LibDrm.Fake

variable {s s' s₁ : State} {b : BoId} {bo : Bo}

/-- What a mapping is about: `map_count`, `bo->virtual` and `is_static`. -/
def Bo.mapping (bo : Bo) : Nat × Option Place × Bool := (bo.mapCount, bo.virtual, bo.isStatic)

theorem Tidies.mapping (h : Tidies s s') (c : BoId) : (s'.bo c).map Bo.mapping = (s.bo c).map Bo.mapping :=
  h.field (fun _ => rfl) c

/-- The buffer has to be mapped on the card, has no block and gets none. -/
def Refused (env : Env) (b : BoId) (bo : Bo) (s : State) : Prop :=
  (bo.flags.noBackingStore || bo.flags.pinned) = true ∧ bo.block = none
    ∧ ∃ s', evictAndAllocBlock env b s = .ok (false, s')

/-- `b` is given a pointer, and nothing else is done to a mapping. -/
def Points (b : BoId) (s s' : State) : Prop :=
  ∃ s₁ bo p, Tidies s s₁ ∧ s₁.bo b = some bo ∧ s' = s₁.setBo b { bo with virtual := some p }

theorem Tidies.points (h : Tidies s s₁) (h₁ : Points b s₁ s') : Points b s s' := by
  obtain ⟨s₂, bo, p, h₂, hb, rfl⟩ := h₁
  exact ⟨s₂, bo, p, h.trans h₂, hb, rfl⟩

theorem points_modify (f : State → Place) (s : State) :
    Ensures (s.modifyBo b fun bo => { bo with virtual := some (f s) }) (Points b s) := by
  refine (modifyBo_ensures b _ s).mono ?_
  rintro s' ⟨bo, hb, rfl⟩
  exact ⟨s, bo, f s, .refl s, hb, rfl⟩

/-! ## One map -/

/-- From where the buffer has a block. -/
theorem mapCard_place (env : Env) (b : BoId) (s : State) : Ensures (do
      let bo ← s.getBo b
      let k ← deref bo.block
      let block ← s.getBlock k
      let s := s.setBo b { bo with dirty := false }
      let s ← if !bo.flags.noFenceSubdata && block.fenced then waitRenderingLocked env b s else pure s
      let s ← s.modifyBo b fun bo => { bo with virtual := some (.card (s.ofs block)) }
      return ((0 : Int), s)) fun r => r.1 = 0 ∧ Points b s r.2 := by
  refine (getBo_ensures b s).bind fun bo hb => Ensures.bind_any fun k => Ensures.bind_any fun blk => ?_
  have hset : Tidies s (s.setBo b { bo with dirty := false }) := tidies_setBo hb rfl
  have hwait : ∀ s₁, Tidies s s₁ → Ensures (do
      let s ← s₁.modifyBo b fun bo => { bo with virtual := some (.card (s₁.ofs blk)) }
      return ((0 : Int), s)) fun r => r.1 = 0 ∧ Points b s r.2 := fun s₁ h₁ =>
    (points_modify (fun s => .card (s.ofs blk)) s₁).bind fun s₂ h₂ => .pure ⟨rfl, h₁.points h₂⟩
  dsimp only
  split
  · exact (waitRenderingLocked_tidies env b _).bind fun s₁ h₁ => hwait s₁ (hset.trans h₁)
  · exact hwait _ hset

theorem mapCard_points (hb : s.bo b = some bo) (hcard : (bo.flags.noBackingStore || bo.flags.pinned) = true) (env : Env) :
    Ensures (mapCard env b s) fun r =>
      (Refused env b bo s ∧ r.1 = 1 ∧ Tidies s r.2) ∨ (¬ Refused env b bo s ∧ r.1 = 0 ∧ Points b s r.2) := by
  unfold mapCard
  refine (getBo_ensures b s).bind fun bo' hb' => ?_
  obtain rfl : bo' = bo := Option.some.inj (hb'.symm.trans hb)
  cases hk : bo'.block with
  | some k =>
      have hgiven : ¬ Refused env b bo' s := fun h => Option.some_ne_none k (hk.symm.trans h.2.1)
      exact (mapCard_place env b s).mono fun r h => .inr ⟨hgiven, h⟩
  | none =>
      refine Ensures.bind (P := fun q => Tidies s q.2 ∧ evictAndAllocBlock env b s = .ok q) ?_ ?_
      · exact fun q hq => ⟨evictAndAllocBlock_tidies env b s q hq, hq⟩
      · rintro ⟨done, s₁⟩ ⟨h₁, hrun⟩
        cases done with
        | false =>
            have hfail : Tidies s₁ { s₁ with fail := true } := tidies_counters ⟨rfl, rfl, rfl⟩ (Nat.le_refl _) ⟨rfl, rfl⟩
            exact .pure (.inl ⟨⟨hcard, hk, s₁, hrun⟩, rfl, h₁.trans hfail⟩)
        | true =>
            have hgiven : ¬ Refused env b bo' s := by
              rintro ⟨-, -, s₂, hrefused⟩
              cases hrun.symm.trans hrefused
            exact (mapCard_place env b s₁).mono fun r h => .inr ⟨hgiven, h.1, h₁.points h.2⟩

theorem mapBacking_points (env : Env) (b : BoId) (writeEnable : Bool) (s : State) :
    Ensures (mapBacking env b writeEnable s) fun r => r.1 = 0 ∧ Points b s r.2 := by
  unfold mapBacking
  refine (setDirtyIf_tidies writeEnable b s).bind fun s₁ h₁ => (needBackingStore_tidies env b s₁).bind fun s₂ h₂ => ?_
  refine (fetchCard_tidies env b s₂).bind fun s₃ h₃ => ?_
  exact (points_modify (fun _ => .backing) s₃).bind fun s₄ h₄ => .pure ⟨rfl, ((h₁.trans h₂).trans h₃).points h₄⟩

/-- What a map does to the mappings, by the kind of the buffer. -/
inductive Maps (env : Env) (b : BoId) (bo : Bo) (s : State) : Int × State → Prop
  | static {s' : State} (h : bo.isStatic = true) (htidies : Tidies s s') : Maps env b bo s (0, s')
  | again (h : bo.isStatic = false) (hcount : bo.mapCount ≠ 0) :
      Maps env b bo s (0, s.setBo b { bo with mapCount := bo.mapCount + 1 })
  | first {s' : State} (h : bo.isStatic = false) (hcount : bo.mapCount = 0)
      (hgiven : ¬ Refused env b bo (s.setBo b { bo with mapCount := 1 }))
      (hpoints : Points b (s.setBo b { bo with mapCount := 1 }) s') : Maps env b bo s (0, s')
  | refused {s' : State} (h : bo.isStatic = false) (hcount : bo.mapCount = 0)
      (hrefused : Refused env b bo (s.setBo b { bo with mapCount := 1 }))
      (htidies : Tidies (s.setBo b { bo with mapCount := 1 }) s') : Maps env b bo s (1, s')

theorem boMapLocked_maps (hb : s.bo b = some bo) (env : Env) (writeEnable : Bool) :
    Ensures (boMapLocked env b writeEnable s) (Maps env b bo s) := by
  unfold boMapLocked
  refine (getBo_ensures b s).bind fun bo' hb' => ?_
  obtain rfl : bo' = bo := Option.some.inj (hb'.symm.trans hb)
  split
  · case isTrue hstatic =>
      split
      · refine (waitIdle_tidies env s).bind fun s₁ h₁ => ?_
        exact (modifyBo_tidies b _ (by exact fun _ => rfl)).bind fun s₂ h₂ => .pure (.static hstatic (h₁.trans h₂))
      · exact .pure (.static hstatic (.refl s))
  · case isFalse hstatic =>
      rw [Bool.not_eq_true] at hstatic
      dsimp only
      split
      · case isTrue hcount => exact .pure (.again hstatic hcount)
      · case isFalse hcount =>
          rw [not_not] at hcount
          rw [hcount]
          split
          · exact .error
          · split
            · case isTrue hcard =>
                have hset : (s.setBo b { bo' with mapCount := 1 }).bo b = some { bo' with mapCount := 1 } := setBo_self ..
                refine (mapCard_points hset hcard env).mono ?_
                rintro ⟨ret, s₁⟩ (⟨hrefused, rfl, h⟩ | ⟨hgiven, rfl, h⟩)
                · exact .refused hstatic hcount hrefused h
                · exact .first hstatic hcount hgiven h
            · case isFalse hcard =>
                refine (mapBacking_points env b writeEnable _).mono ?_
                rintro ⟨ret, s₁⟩ ⟨rfl, h⟩
                exact .first hstatic hcount (fun h => hcard h.1) h

theorem Points.others (h : Points b s s') {c : BoId} (hc : c ≠ b) : (s'.bo c).map Bo.mapping = (s.bo c).map Bo.mapping := by
  obtain ⟨s₁, bo, p, h₁, -, rfl⟩ := h
  rw [setBo_of_ne hc]
  exact h₁.mapping c

theorem Points.self (h : Points b s s') (hb : s.bo b = some bo) :
    ∃ p, (s'.bo b).map Bo.mapping = some (bo.mapCount, some p, bo.isStatic) := by
  obtain ⟨s₁, bo₁, p, h₁, hb₁, rfl⟩ := h
  have hsame := h₁.mapping b
  rw [hb, hb₁, Option.map_some, Option.map_some, Option.some.injEq] at hsame
  have hcount : bo₁.mapCount = bo.mapCount := congrArg Prod.fst hsame
  have hstatic : bo₁.isStatic = bo.isStatic := congrArg (fun t => t.2.2) hsame
  refine ⟨p, ?_⟩
  rw [setBo_self, ← hcount, ← hstatic]
  rfl

theorem Maps.others {env : Env} {r : Int × State} (h : Maps env b bo s r) {c : BoId} (hc : c ≠ b) :
    (r.2.bo c).map Bo.mapping = (s.bo c).map Bo.mapping := by
  have hset : ∀ bo', ((s.setBo b bo').bo c).map Bo.mapping = (s.bo c).map Bo.mapping := fun bo' => by rw [setBo_of_ne hc]
  cases h with
  | static _ htidies => exact htidies.mapping c
  | again _ _ => exact hset _
  | first _ _ _ hpoints => exact (hpoints.others hc).trans (hset _)
  | refused _ _ _ htidies => exact (htidies.mapping c).trans (hset _)

/-! ## Runs -/

/-- The manager, and how many maps of each buffer have succeeded and were not unmapped (no data of the source). -/
structure Ledger where
  state : State
  maps : BoId → Nat

inductive MapOp
  | map (b : BoId) (writeEnable : Bool)
  | unmap (b : BoId)

def MapOp.call (env : Env) : MapOp → State → Except Fault (Int × State)
  | .map b writeEnable => boMapLocked env b writeEnable
  | .unmap b => boUnmapLocked b

/-- The maps that there are after the call has returned `ret`. -/
def MapOp.note (ret : Int) (maps : BoId → Nat) : MapOp → BoId → Nat
  | .map b _ => if ret = 0 then Function.update maps b (maps b + 1) else maps
  | .unmap b => Function.update maps b (maps b - 1)

/-- A call, with what it meets. -/
def Ledger.step (m : Ledger) (c : Env × MapOp) : Option Ledger :=
  match c.2.call c.1 m.state with
  | .ok (ret, s) => some ⟨s, c.2.note ret m.maps⟩
  | .error _ => none

/-- What is promised of a call that returns. -/
structure MapOp.Contract (m : Ledger) (op : MapOp) (r : Int × State) : Prop where
  mapped : ∀ b w, op = .map b w → r.1 = 0 → ∀ bo, r.2.bo b = some bo → bo.virtual ≠ none
  failed : ∀ b w, op = .map b w → r.1 ≠ 0 →
    (r.2.bo b).map (fun bo => (bo.mapCount, bo.virtual)) = (m.state.bo b).map fun bo => (bo.mapCount, bo.virtual)
  counted : ∀ c bo, r.2.bo c = some bo → bo.mapCount = op.note r.1 m.maps c

/-- A map is not of a static buffer, and if it is the first it is not refused a block. -/
def MapOp.Supplied (env : Env) (s : State) : MapOp → Prop
  | .map b _ => ∀ bo, s.bo b = some bo →
      bo.isStatic = false ∧ (bo.mapCount = 0 → ¬ Refused env b bo (s.setBo b { bo with mapCount := 1 }))
  | .unmap _ => True

/-- Nothing is mapped but the static buffers. -/
def State.Unmapped (s : State) : Prop :=
  ∀ c bo, s.bo c = some bo → bo.mapCount = 0 ∧ (bo.virtual ≠ none ↔ bo.isStatic = true)

/-- A buffer with `n` maps: it has a pointer if there are any, or if it is static. -/
structure Backed (n : Nat) (mapping : Nat × Option Place × Bool) : Prop where
  count : mapping.1 = n
  static : mapping.2.2 = true → mapping.1 = 0
  pointer : mapping.2.2 = true ∨ mapping.1 ≠ 0 → mapping.2.1 ≠ none

def Ledger.Backed (m : Ledger) : Prop := ∀ c, ∀ t ∈ (m.state.bo c).map Bo.mapping, Fake.Backed (m.maps c) t

variable {m m' : Ledger} {env : Env} {op : MapOp} {r : Int × State}

theorem Ledger.Backed.of (h : m.Backed) (hb : m.state.bo b = some bo) : Fake.Backed (m.maps b) bo.mapping :=
  h b _ (Option.mem_map_of_mem _ hb)

theorem State.Unmapped.backed (h : s.Unmapped) : Ledger.Backed ⟨s, fun _ => 0⟩ := by
  intro c t ht
  obtain ⟨bo, hb, rfl⟩ := Option.mem_map.mp ht
  obtain ⟨hcount, hpointer⟩ := h c bo hb
  refine ⟨hcount, fun _ => hcount, ?_⟩
  rintro (hstatic | hmapped)
  · exact hpointer.mpr hstatic
  · exact absurd hcount hmapped

/-- One buffer is mapped or unmapped. -/
theorem Ledger.Backed.update (h : m.Backed) {n : Nat} (hothers : ∀ c, c ≠ b → (s'.bo c).map Bo.mapping = (m.state.bo c).map Bo.mapping)
    (hself : ∀ t ∈ (s'.bo b).map Bo.mapping, Fake.Backed n t) : Ledger.Backed ⟨s', Function.update m.maps b n⟩ := by
  intro c t ht
  show Fake.Backed (Function.update m.maps b n c) t
  by_cases hc : c = b
  · subst hc
    rw [Function.update_self]
    exact hself t ht
  · rw [Function.update_of_ne hc]
    exact h c t (hothers c hc ▸ ht)

theorem Ledger.Backed.counted (h : m.Backed) (c : BoId) (hb : m.state.bo c = some bo) : bo.mapCount = m.maps c :=
  (h.of hb).count

theorem Maps.backed (h : m.Backed) (hb : m.state.bo b = some bo) (hr : Maps env b bo m.state r) {w : Bool}
    (hsupplied : (MapOp.map b w).Supplied env m.state) :
    r.1 = 0 ∧ Ledger.Backed ⟨r.2, Function.update m.maps b (m.maps b + 1)⟩ := by
  obtain ⟨hstatic, hgranted⟩ := hsupplied bo hb
  have hcount := h.counted b hb
  have hothers := fun c (hc : c ≠ b) => hr.others hc
  cases hr with
  | static hyes _ => exact absurd (hyes.symm.trans hstatic) nofun
  | again _ hmapped =>
      refine ⟨rfl, h.update hothers fun t ht => ?_⟩
      rw [setBo_self, Option.map_some, Option.mem_some_iff] at ht
      subst ht
      refine ⟨congrArg (· + 1) hcount, fun hyes => absurd (hyes.symm.trans hstatic) nofun, fun _ => ?_⟩
      exact (h.of hb).pointer (.inr hmapped)
  | first _ hzero _ hpoints =>
      refine ⟨rfl, h.update hothers fun t ht => ?_⟩
      obtain ⟨p, hp⟩ := hpoints.self (setBo_self ..)
      rw [hp, Option.mem_some_iff] at ht
      subst ht
      refine ⟨?_, fun hyes => absurd (hyes.symm.trans hstatic) nofun, fun _ => nofun⟩
      show 1 = m.maps b + 1
      rw [← hcount, hzero]
  | refused _ hzero hrefused _ => exact absurd hrefused (hgranted hzero)

theorem Maps.contract_iff (h : m.Backed) (hb : m.state.bo b = some bo) (hr : Maps env b bo m.state r) (w : Bool) :
    (MapOp.map b w).Contract m r ↔ (MapOp.map b w).Supplied env m.state := by
  constructor
  · intro hcontract bo' hb'
    obtain rfl : bo' = bo := Option.some.inj (hb'.symm.trans hb)
    cases hr with
    | static _ htidies =>
        -- the count is what it was, and one map more has succeeded
        obtain ⟨bo₁, hb₁, hsame⟩ := Option.map_eq_some_iff.mp ((htidies.mapping b).trans (congrArg (Option.map Bo.mapping) hb))
        have hcounted := hcontract.counted b bo₁ hb₁
        have hcount : bo₁.mapCount = bo'.mapCount := congrArg Prod.fst hsame
        rw [MapOp.note, if_pos rfl, Function.update_self, hcount, h.counted b hb] at hcounted
        omega
    | again hstatic hmapped => exact ⟨hstatic, fun hzero => absurd hzero hmapped⟩
    | first hstatic _ hgiven _ => exact ⟨hstatic, fun _ => hgiven⟩
    | refused _ hzero _ htidies =>
        have hsame := (htidies.mapping b).symm.trans (congrArg (Option.map Bo.mapping) rfl)
        rw [setBo_self, Option.map_some] at hsame
        obtain ⟨bo₁, hb₁, hone⟩ := Option.map_eq_some_iff.mp hsame.symm
        have hfailed := hcontract.failed b w rfl (show (1 : Int) ≠ 0 by decide)
        rw [hb₁, hb, Option.map_some, Option.map_some, Option.some.injEq, Prod.mk.injEq] at hfailed
        have hcount : bo₁.mapCount = 1 := congrArg Prod.fst hone
        omega
  · intro hsupplied
    obtain ⟨hret, hbacked⟩ := hr.backed h hb hsupplied
    refine ⟨?_, fun _ _ _ hne => absurd hret hne, ?_⟩
    · rintro b' w' heq - bo' hb'
      cases heq
      refine (hbacked.of hb').pointer (.inr ?_)
      have hcount := hbacked.counted b hb'
      dsimp only at hcount
      rw [Function.update_self] at hcount
      show bo'.mapCount ≠ 0
      omega
    · intro c bo' hb'
      rw [MapOp.note, if_pos hret]
      exact hbacked.counted c hb'

theorem Ledger.Backed.unmap (h : m.Backed) (b : BoId) : Ensures (boUnmapLocked b m.state) fun r =>
    Ledger.Backed ⟨r.2, Function.update m.maps b (m.maps b - 1)⟩ := by
  unfold boUnmapLocked
  refine (getBo_ensures b m.state).bind fun bo hb => ?_
  have hold := h.of hb
  have hothers : ∀ bo' c, c ≠ b → ((m.state.setBo b bo').bo c).map Bo.mapping = (m.state.bo c).map Bo.mapping :=
    fun bo' c hc => by rw [setBo_of_ne hc]
  split
  · case isTrue hstatic =>
      have hzero : m.maps b = 0 := hold.count.symm.trans (hold.static hstatic)
      have hsame : Function.update m.maps b (m.maps b - 1) = m.maps := Function.update_eq_self_iff.mpr (by omega)
      rw [hsame]
      exact .pure h
  · case isFalse hstatic =>
      refine Ensures.bind_any fun _ => ?_
      dsimp only
      split
      · case isTrue hleft =>
          refine .pure (h.update (hothers _) fun t ht => ?_)
          rw [setBo_self, Option.map_some, Option.mem_some_iff] at ht
          subst ht
          refine ⟨congrArg (· - 1) hold.count, fun hyes => absurd hyes hstatic, fun _ => ?_⟩
          refine hold.pointer (.inr fun hzero => hleft ?_)
          rw [show bo.mapCount = 0 from hzero]
      · case isFalse hlast =>
          rw [not_not] at hlast
          refine .pure (h.update (hothers _) fun t ht => ?_)
          rw [setBo_self, Option.map_some, Option.mem_some_iff] at ht
          subst ht
          refine ⟨congrArg (· - 1) hold.count, fun _ => hlast, ?_⟩
          rintro (hyes | hmapped)
          · exact absurd hyes hstatic
          · exact absurd hlast hmapped

/-- A call that returns keeps its contract. -/
def Ledger.Honours (m : Ledger) (c : Env × MapOp) : Prop := Ensures (c.2.call c.1 m.state) (c.2.Contract m)

/-- A call that returns was given what it needs. -/
def Ledger.Supplies (m : Ledger) (c : Env × MapOp) : Prop :=
  Ensures (c.2.call c.1 m.state) fun _ => c.2.Supplied c.1 m.state

theorem Ledger.Backed.step (h : m.Backed) (c : Env × MapOp) (hc : m.Supplies c) (hstep : m.step c = some m') : m'.Backed := by
  obtain ⟨env, op⟩ := c
  unfold Ledger.step at hstep
  split at hstep
  · rename_i ret s hcall
    obtain rfl := Option.some.inj hstep
    cases op with
    | map b w =>
        cases hb : m.state.bo b with
        | none =>
            rw [MapOp.call, boMapLocked, State.getBo, hb] at hcall
            cases hcall
        | some bo =>
            obtain ⟨hret, hbacked⟩ := (boMapLocked_maps hb env w _ hcall).backed h hb (hc _ hcall)
            show Ledger.Backed ⟨s, if ret = 0 then Function.update m.maps b (m.maps b + 1) else m.maps⟩
            rw [if_pos hret]
            exact hbacked
    | unmap b => exact h.unmap b _ hcall
  · cases hstep

end LibDrm.Fake
