/-
# `LibDrm.Nouveau.Lifetime` — a buffer is freed once

`nouveau_bo_del` runs when a count has gone to zero, and finds out under the lock whether the
buffer was revived.  The stages of a buffer with a name:

    unborn    its memory is not there yet
    listed    it is on the list, and its count is the number of references
    leaving   a call has closed its handle, and is about to free it
    gone      it was closed once and freed once

A listed buffer may have one call in `nouveau_bo_del` that waits for the lock.  It must not have
two: when the count of a revived buffer goes to zero while the first call still waits, the first
that gets the lock frees the buffer under the second (`bo_lifetime_revived`).
-/
import LibDrm.Nouveau.Bo

namespace LibDrm.Nouveau

variable {σ σ' : Threads} {b c d : BoId} {bo : Bo} {pc : Pc} {calls rest : List Pc} {p : Pc → Bool}

/-! ## Counting calls -/

/-- The calls of a kind on a buffer. -/
def tally (p : Pc → Bool) (b : BoId) (calls : List Pc) : Nat := calls.countP fun pc => p pc && pc.bo == b

theorem tally_perm (h : calls.Perm rest) : tally p b calls = tally p b rest := h.countP_eq _

@[simp] theorem tally_nil : tally p b [] = 0 := rfl

theorem tally_cons : tally p b (pc :: rest) = tally p b rest + if p pc && pc.bo == b then 1 else 0 :=
  List.countP_cons

theorem tally_cons_of_ne (h : pc.bo ≠ b) : tally p b (pc :: rest) = tally p b rest := by simp [tally_cons, h]

theorem tally_cons_self : tally p pc.bo (pc :: rest) = tally p pc.bo rest + (p pc).toNat := by
  rw [tally_cons]
  cases p pc with
  | true => simp
  | false => simp

theorem tally_pos (pc : Pc) (h : pc ∈ calls) (hp : p pc = true) : 0 < tally p pc.bo calls :=
  List.countP_pos_iff.mpr ⟨pc, h, by simp [hp]⟩

theorem pick_spec {i : Nat} : Ensures (σ.pick i) fun r => σ.calls.Perm (r.1 :: r.2) := by
  unfold Threads.pick
  split
  · next pc hi =>
    obtain ⟨hlt, rfl⟩ := List.getElem?_eq_some_iff.mp hi
    exact .ok (List.getElem_cons_eraseIdx_perm hlt).symm
  · exact .error

/-! ## Stages -/

/-- All there is to a buffer. -/
structure View where
  bo : Option Bo
  listed : Bool
  refs : Nat
  pending : Nat
  leaving : Nat
  closes : Nat
  frees : Nat

/-- The references of the callers and of the calls. -/
def Threads.refs (b : BoId) (σ : Threads) : Nat := σ.callers b + tally Pc.owns b σ.calls

def Threads.view (b : BoId) (σ : Threads) : View where
  bo := σ.bo b
  listed := decide (b ∈ σ.boList)
  refs := σ.refs b
  pending := tally Pc.pending b σ.calls
  leaving := tally Pc.leaving b σ.calls
  closes := σ.closes b
  frees := σ.frees b

inductive Stage : View → Prop
  | unborn : Stage ⟨none, false, 0, 0, 0, 0, 0⟩
  | listed {bo : Bo} {refs pending : Nat} (hname : bo.name ≠ 0) (hrefcnt : bo.refcnt = refs) (hpending : pending ≤ 1) :
      Stage ⟨some bo, true, refs, pending, 0, 0, 0⟩
  | leaving {bo : Bo} : Stage ⟨some bo, false, 0, 0, 1, 1, 0⟩
  | gone : Stage ⟨none, false, 0, 0, 0, 1, 1⟩

/-- Every buffer is in a stage, and the handles of the listed ones are open and their own. -/
structure Inv (σ : Threads) : Prop where
  stage : ∀ b, Stage (σ.view b)
  nodup : σ.boList.Nodup
  own : ∀ {b d x y}, b ∈ σ.boList → d ∈ σ.boList → σ.bo b = some x → σ.bo d = some y → x.handle = y.handle → b = d
  opened : ∀ {b x}, b ∈ σ.boList → σ.bo b = some x → σ.opened x.handle = true
  locking : ∀ {b handle x}, .locking b handle ∈ σ.calls → σ.bo b = some x → x.handle = handle
  closing : ∀ {b handle}, .closing b handle ∉ σ.calls
  fresh : ∀ {b}, σ.fresh ≤ b → σ.view b = ⟨none, false, 0, 0, 0, 0, 0⟩

/-- A listed buffer, as it is seen. -/
structure Listed (b : BoId) (bo : Bo) (σ : Threads) : Prop where
  mem : b ∈ σ.boList
  memory : σ.bo b = some bo
  name : bo.name ≠ 0
  refcnt : bo.refcnt = σ.refs b
  pending : tally Pc.pending b σ.calls ≤ 1
  leaving : tally Pc.leaving b σ.calls = 0
  closes : σ.closes b = 0
  frees : σ.frees b = 0

theorem Listed.stage (h : Listed b bo σ) : Stage (σ.view b) := by
  have hview : σ.view b = ⟨some bo, true, σ.refs b, tally Pc.pending b σ.calls, 0, 0, 0⟩ := by
    simp [Threads.view, h.mem, h.memory, h.leaving, h.closes, h.frees]
  rw [hview]
  exact .listed h.name h.refcnt h.pending

theorem Inv.listed (h : Inv σ) (hmem : b ∈ σ.boList) : ∃ bo, Listed b bo σ := by
  have hstage := h.stage b
  generalize hv : σ.view b = v at hstage
  have hlisted := congrArg View.listed hv
  simp only [Threads.view, hmem, decide_true] at hlisted
  cases hstage with
  | unborn => cases hlisted
  | @listed bo refs pending hname hrefcnt hpending =>
      refine ⟨bo, hmem, congrArg View.bo hv, hname, ?_, ?_, congrArg View.leaving hv, congrArg View.closes hv,
        congrArg View.frees hv⟩
      · rw [hrefcnt]
        exact congrArg Nat.cast (congrArg View.refs hv).symm
      · have := congrArg View.pending hv
        exact this.le.trans hpending
  | leaving => cases hlisted
  | gone => cases hlisted

/-- A buffer that is referred to or about to be deleted is listed. -/
theorem Inv.mem_of_pos (h : Inv σ) (hpos : 0 < σ.refs b ∨ 0 < tally Pc.pending b σ.calls) : b ∈ σ.boList := by
  have hstage := h.stage b
  generalize hv : σ.view b = v at hstage
  have hrefs : σ.refs b = v.refs := congrArg View.refs hv
  have hpending : tally Pc.pending b σ.calls = v.pending := congrArg View.pending hv
  have hlisted : decide (b ∈ σ.boList) = v.listed := congrArg View.listed hv
  rw [hrefs, hpending] at hpos
  cases hstage with
  | listed => exact of_decide_eq_true hlisted
  | unborn => exact absurd hpos (by simp)
  | leaving => exact absurd hpos (by simp)
  | gone => exact absurd hpos (by simp)

theorem Inv.leaving (h : Inv σ) (hpos : 0 < tally Pc.leaving b σ.calls) :
    ∃ bo, σ.view b = ⟨some bo, false, 0, 0, 1, 1, 0⟩ := by
  have hstage := h.stage b
  generalize hv : σ.view b = v at hstage ⊢
  have hleaving : tally Pc.leaving b σ.calls = v.leaving := congrArg View.leaving hv
  rw [hleaving] at hpos
  cases hstage with
  | leaving => exact ⟨_, rfl⟩
  | listed => exact absurd hpos (by simp)
  | unborn => exact absurd hpos (by simp)
  | gone => exact absurd hpos (by simp)

theorem Inv.lt_fresh (h : Inv σ) (hb : σ.bo b = some bo) : b < σ.fresh := by
  refine Nat.lt_of_not_le fun hle => ?_
  have := congrArg View.bo (h.fresh hle)
  rw [show (σ.view b).bo = σ.bo b from rfl, hb] at this
  cases this

/-! ## What errors a step may have -/

/-- Not the one of memory that was freed. -/
def Harmless (fault : Fault) : Prop := ∀ b, fault ≠ .freed b

theorem enabled_within {q : Bool} : Within Harmless (enabled q) fun _ => q = true := by
  unfold enabled
  split
  · next h => exact .ok h
  · exact .error fun _ => nofun

theorem touch_within (hb : σ.bo b = some bo) : Within Harmless (σ.touch b) fun x => bo = x := by
  unfold Threads.touch
  rw [hb]
  exact .ok rfl

theorem pick_within {i : Nat} : Within Harmless (σ.pick i) fun r => σ.calls.Perm (r.1 :: r.2) := by
  refine ⟨pick_spec, fun e he => ?_⟩
  unfold Threads.pick at he
  split at he
  · cases he
  · cases he
    exact fun _ => nofun

theorem findBo_within {q : Bo → Bool} {l : List BoId} (h : ∀ b ∈ l, ∃ bo, σ.bo b = some bo) :
    Within Harmless (findBo q σ l) fun found => match found with
      | some b => b ∈ l
      | none => ∀ b ∈ l, ∀ bo, σ.bo b = some bo → q bo = false := by
  induction l with
  | nil => exact .ok fun b hb => absurd hb List.not_mem_nil
  | cons b l ih =>
      obtain ⟨bo, hb⟩ := h b List.mem_cons_self
      refine (touch_within hb).bind ?_
      rintro _ rfl
      split
      · exact .pure List.mem_cons_self
      · next hq =>
        refine (ih fun d hd => h d (List.mem_cons_of_mem b hd)).mono ?_
        rintro (_ | d) hd
        · intro d hmem x hx
          rcases List.mem_cons.mp hmem with rfl | hmem
          · cases hb.symm.trans hx
            simpa using hq
          · exact hd d hmem x hx
        · exact List.mem_cons_of_mem b hd

/-! ## What a step changes -/

theorem setBo_setBo {x y : Bo} : (σ.setBo b x).setBo b y = σ.setBo b y := by simp [Threads.setBo, Function.update_idem]

theorem setBo_eq_self (hb : σ.bo b = some bo) : σ.setBo b bo = σ := by
  simp only [Threads.setBo, ← hb, Function.update_eq_self]

theorem setBo_bo {x y : Bo} (h : (σ.setBo b x).bo d = some y) : d = b ∧ y = x ∨ d ≠ b ∧ σ.bo d = some y := by
  simp only [Threads.setBo, Function.update_apply] at h
  split at h
  · next hd => exact .inl ⟨hd, (Option.some.inj h).symm⟩
  · next hd => exact .inr ⟨hd, h⟩

/-- A listed buffer changes, and the references and calls that have to do with it. -/
theorem Inv.change (bo' : Bo) (callers' : BoId → Nat) (calls : List Pc) (h : Inv σ) (hl : Listed b bo σ)
    (hl' : Listed b bo' { σ.setBo b bo' with callers := callers', calls := calls })
    (hhandle : bo'.handle = bo.handle)
    (hother : ∀ c, c ≠ b → callers' c = σ.callers c ∧ ∀ p, tally p c calls = tally p c σ.calls)
    (hlocking : ∀ d handle, .locking d handle ∈ calls → .locking d handle ∈ σ.calls ∨ d = b ∧ handle = bo.handle)
    (hclosing : ∀ d handle, .closing d handle ∉ calls) :
    Inv { σ.setBo b bo' with callers := callers', calls := calls } := by
  have hview : ∀ c, c ≠ b →
      Threads.view c { σ.setBo b bo' with callers := callers', calls := calls } = σ.view c := by
    intro c hcb
    obtain ⟨hcallers, htally⟩ := hother c hcb
    simp only [Threads.view, Threads.refs, Threads.setBo, Function.update_of_ne hcb, hcallers, htally]
    rfl
  have hback : ∀ {d x}, (σ.setBo b bo').bo d = some x → ∃ y, σ.bo d = some y ∧ x.handle = y.handle := by
    intro d x hd
    rcases setBo_bo hd with ⟨rfl, rfl⟩ | ⟨-, hd⟩
    · exact ⟨bo, hl.memory, hhandle⟩
    · exact ⟨x, hd, rfl⟩
  constructor
  case stage =>
    intro c
    rcases eq_or_ne c b with rfl | hcb
    · exact hl'.stage
    · rw [hview c hcb]
      exact h.stage c
  case nodup => exact h.nodup
  case own =>
    intro c d x y hc hd hx hy hxy
    obtain ⟨x', hx', hxx⟩ := hback hx
    obtain ⟨y', hy', hyy⟩ := hback hy
    exact h.own hc hd hx' hy' (hxx.symm.trans (hxy.trans hyy))
  case opened =>
    intro c x hc hx
    obtain ⟨x', hx', hxx⟩ := hback hx
    rw [hxx]
    exact h.opened hc hx'
  case locking =>
    intro c handle x hc hx
    obtain ⟨x', hx', hxx⟩ := hback hx
    rw [hxx]
    rcases hlocking c handle hc with hc | ⟨rfl, rfl⟩
    · exact h.locking hc hx'
    · cases hl.memory.symm.trans hx'
      rfl
  case closing => exact fun {c handle} => hclosing c handle
  case fresh =>
    intro c hc
    have hcb : c ≠ b := by
      rintro rfl
      exact absurd (h.lt_fresh hl.memory) (Nat.not_lt.mpr hc)
    rw [hview c hcb]
    exact h.fresh hc

/-- A listed buffer gets a reference, and perhaps a name. -/
theorem Inv.gain {name : Nat} (h : Inv σ) (hl : Listed b bo σ) (hname : name ≠ 0) :
    Inv ((σ.setBo b { bo with refcnt := bo.refcnt + 1, name }).take b) := by
  refine h.change _ _ _ hl ⟨hl.mem, by simp [Threads.setBo], hname, ?_, hl.pending, hl.leaving, hl.closes, hl.frees⟩ rfl
    (fun c hcb => ⟨Function.update_of_ne hcb _ _, fun _ => rfl⟩) (fun _ _ => .inl) fun _ _ => h.closing
  have hrefcnt := hl.refcnt
  simp only [Threads.refs, Function.update_self] at hrefcnt ⊢
  show bo.refcnt + 1 = _
  rw [hrefcnt]
  show _ = ((σ.callers b + 1 + tally Pc.owns b σ.calls : Nat) : Int)
  omega

/-- A caller gives its reference to a call. -/
theorem Inv.start (h : Inv σ) (hpos : 0 < σ.callers b) :
    Inv { σ.giveUp b with calls := .dropping b :: σ.calls } := by
  obtain ⟨bo, hl⟩ := h.listed (h.mem_of_pos (.inl (Nat.lt_of_lt_of_le hpos (Nat.le_add_right _ _))))
  have hsame : ∀ q : Pc → Bool, q (.dropping b) = false → tally q b (.dropping b :: σ.calls) = tally q b σ.calls := by
    intro q hq
    rw [tally_cons, hq]
    rfl
  have hstart := h.change bo (Function.update σ.callers b (σ.callers b - 1)) (.dropping b :: σ.calls) hl
    ⟨hl.mem, by simp [Threads.setBo], hl.name, ?_, ?_, ?_, hl.closes, hl.frees⟩ rfl ?_ ?_ ?_
  · rwa [setBo_eq_self hl.memory] at hstart
  · rw [hl.refcnt]
    simp only [Threads.refs, Function.update_self, tally_cons]
    simp [Pc.owns, Pc.bo]
    omega
  · rw [hsame _ rfl]
    exact hl.pending
  · rw [hsame _ rfl]
    exact hl.leaving
  · intro c hcb
    exact ⟨Function.update_of_ne hcb _ _, fun q => tally_cons_of_ne fun hbc => hcb hbc.symm⟩
  · intro d handle hmem
    exact .inl ((List.mem_cons.mp hmem).resolve_left nofun)
  · intro d handle hmem
    exact h.closing ((List.mem_cons.mp hmem).resolve_left nofun)

/-- The calls after one of them is over. -/
theorem Inv.rest_locking (h : Inv σ) (hcalls : σ.calls.Perm (pc :: rest)) (hpc : pc.bo = b)
    {bo : Bo} {pcs : List Pc} (hpcs : ∀ q ∈ pcs, q = .deleting b ∨ q = .locking b bo.handle) :
    (∀ c, c ≠ b → ∀ p, tally p c (pcs ++ rest) = tally p c σ.calls) ∧
    (∀ d handle, .locking d handle ∈ pcs ++ rest → .locking d handle ∈ σ.calls ∨ d = b ∧ handle = bo.handle) ∧
    ∀ d handle, .closing d handle ∉ pcs ++ rest := by
  have hrest : ∀ q ∈ rest, q ∈ σ.calls := fun q hq => hcalls.mem_iff.mpr (List.mem_cons_of_mem pc hq)
  refine ⟨fun c hcb q => ?_, fun d handle hmem => ?_, fun d handle hmem => ?_⟩
  · rw [tally_perm hcalls, tally_cons_of_ne (by rw [hpc]; exact fun hbc => hcb hbc.symm)]
    have hnone : tally q c pcs = 0 := by
      refine List.countP_eq_zero.mpr fun x hx => ?_
      rcases hpcs x hx with rfl | rfl
      · simp [Pc.bo, Ne.symm hcb]
      · simp [Pc.bo, Ne.symm hcb]
    rw [tally, List.countP_append]
    show tally q c pcs + tally q c rest = _
    rw [hnone, Nat.zero_add]
  · rcases List.mem_append.mp hmem with hmem | hmem
    · rcases hpcs _ hmem with hq | hq
      · cases hq
      · cases hq
        exact .inr ⟨rfl, rfl⟩
    · exact .inl (hrest _ hmem)
  · rcases List.mem_append.mp hmem with hmem | hmem
    · rcases hpcs _ hmem with hq | hq
      · cases hq
      · cases hq
    · exact h.closing (hrest _ hmem)

/-- A call on a listed buffer goes on, with `pcs` to be done after it. -/
theorem Inv.proceed {bo' : Bo} (pcs : List Pc) (h : Inv σ) (hcalls : σ.calls.Perm (pc :: rest)) (hpc : pc.bo = b)
    (hl : Listed b bo σ) (hpcs : ∀ q ∈ pcs, q = .deleting b ∨ q = .locking b bo.handle) (hhandle : bo'.handle = bo.handle)
    (hname : bo'.name = bo.name) (hrefcnt : bo'.refcnt = ((σ.callers b + tally Pc.owns b (pcs ++ rest) : Nat) : Int))
    (hpending : tally Pc.pending b (pcs ++ rest) ≤ 1) (hpc' : pc.leaving = false) :
    Inv { σ.setBo b bo' with calls := pcs ++ rest } := by
  obtain ⟨hother, hlocking, hclosing⟩ := h.rest_locking hcalls hpc hpcs
  refine h.change _ _ _ hl ⟨hl.mem, by simp [Threads.setBo], by rw [hname]; exact hl.name, hrefcnt, hpending, ?_, hl.closes,
    hl.frees⟩ hhandle (fun c hcb => ⟨rfl, hother c hcb⟩) hlocking hclosing
  have hleaving := hl.leaving
  rw [tally_perm hcalls, tally_cons, hpc'] at hleaving
  have hnone : tally Pc.leaving b pcs = 0 := by
    refine List.countP_eq_zero.mpr fun x hx => ?_
    rcases hpcs x hx with rfl | rfl
    · simp [Pc.leaving]
    · simp [Pc.leaving]
  show tally Pc.leaving b (pcs ++ rest) = 0
  rw [tally, List.countP_append]
  show tally Pc.leaving b pcs + tally Pc.leaving b rest = 0
  rw [hnone, Nat.zero_add]
  simpa using hleaving

/-- `atomic_dec_and_test`; the count goes to zero only when no other call waits to delete the buffer. -/
theorem atomicDecAndTest_within (h : Inv σ) (hcalls : σ.calls.Perm (.dropping b :: rest))
    (hsettled : ∀ bo, σ.bo b = some bo → bo.refcnt = 1 → tally Pc.pending b rest = 0) :
    Within Harmless (atomicDecAndTest b rest σ) Inv := by
  have hpos : 0 < tally Pc.owns b σ.calls := tally_pos (.dropping b) (hcalls.mem_iff.mpr List.mem_cons_self) rfl
  obtain ⟨bo, hl⟩ := h.listed (h.mem_of_pos (.inl (Nat.lt_of_lt_of_le hpos (Nat.le_add_left _ _))))
  refine (touch_within hl.memory).bind ?_
  rintro _ rfl
  have hrefcnt := hl.refcnt
  rw [Threads.refs, tally_perm hcalls, tally_cons] at hrefcnt
  simp only [Pc.owns, Pc.bo, beq_self_eq_true, Bool.and_self, if_true] at hrefcnt
  have hpending := hl.pending
  rw [tally_perm hcalls, tally_cons] at hpending
  simp only [Pc.pending, Bool.false_and, Bool.false_eq_true, if_false, Nat.add_zero] at hpending
  refine .pure ?_
  split
  · next hone =>
    have hzero := hsettled bo hl.memory hone
    refine h.proceed [.deleting b] hcalls rfl hl (by simp) rfl rfl ?_ ?_ rfl
    · simp only [List.singleton_append, tally_cons, Pc.owns, Bool.false_and, Bool.false_eq_true, if_false, hrefcnt]
      omega
    · simp [tally_cons, Pc.pending, Pc.bo, hzero]
  · refine h.proceed [] hcalls rfl hl (by simp) rfl rfl ?_ hpending rfl
    simp only [List.nil_append, hrefcnt]
    omega

theorem Inv.listed_of_pending (h : Inv σ) (hcalls : σ.calls.Perm (pc :: rest)) (hpc : pc.pending = true) :
    ∃ bo, Listed pc.bo bo σ ∧ tally Pc.pending pc.bo rest = 0 := by
  have hpos : 0 < tally Pc.pending pc.bo σ.calls := tally_pos pc (hcalls.mem_iff.mpr List.mem_cons_self) hpc
  obtain ⟨bo, hl⟩ := h.listed (h.mem_of_pos (.inr hpos))
  have hpending := hl.pending
  rw [tally_perm hcalls, tally_cons_self, hpc] at hpending
  exact ⟨bo, hl, by simpa using hpending⟩

/-- A call that leaves the count alone goes on. -/
theorem Inv.pass (pcs : List Pc) (h : Inv σ) (hcalls : σ.calls.Perm (pc :: rest)) (hpc : pc.bo = b)
    (hl : Listed b bo σ) (hpcs : ∀ q ∈ pcs, q = .deleting b ∨ q = .locking b bo.handle) (howns : pc.owns = false)
    (hpending : tally Pc.pending b (pcs ++ rest) ≤ 1) (hleaving : pc.leaving = false) :
    Inv { σ with calls := pcs ++ rest } := by
  have hsame := h.proceed pcs hcalls hpc hl hpcs rfl rfl ?_ hpending hleaving
  · rwa [setBo_eq_self hl.memory] at hsame
  · have hnone : tally Pc.owns b pcs = 0 := by
      refine List.countP_eq_zero.mpr fun x hx => ?_
      rcases hpcs x hx with rfl | rfl
      · simp [Pc.owns]
      · simp [Pc.owns]
    have hrefcnt := hl.refcnt
    rw [Threads.refs, tally_perm hcalls, tally_cons, howns] at hrefcnt
    rw [hrefcnt, tally, tally, List.countP_append]
    show _ = ((σ.callers b + (tally Pc.owns b pcs + tally Pc.owns b rest) : Nat) : Int)
    rw [hnone, Nat.zero_add]
    rfl

/-- The last look at a buffer that nobody revived. -/
theorem Inv.unlist (h : Inv σ) (hcalls : σ.calls.Perm (.locking b bo.handle :: rest)) (hl : Listed b bo σ)
    (hzero : bo.refcnt = 0) (hpending : tally Pc.pending b rest = 0) :
    Inv { (σ.close b bo.handle) with boList := σ.boList.erase b, calls := .freeing b :: rest } := by
  have hrest : ∀ q ∈ rest, q ∈ σ.calls := fun q hq => hcalls.mem_iff.mpr (List.mem_cons_of_mem _ hq)
  have hrefs : σ.refs b = 0 := by
    have := hl.refcnt
    omega
  have hmem : ∀ {c}, c ∈ σ.boList.erase b ↔ c ≠ b ∧ c ∈ σ.boList := h.nodup.mem_erase_iff
  have htally : ∀ {c} {q : Pc → Bool}, c ≠ b → tally q c (.freeing b :: rest) = tally q c σ.calls := by
    intro c q hcb
    rw [tally_perm hcalls, tally_cons_of_ne (Ne.symm hcb), tally_cons_of_ne (Ne.symm hcb)]
  have hview : ∀ c, c ≠ b → Threads.view c { (σ.close b bo.handle) with
      boList := σ.boList.erase b, calls := .freeing b :: rest } = σ.view c := by
    intro c hcb
    simp only [Threads.view, Threads.refs, Threads.close, Function.update_of_ne hcb, htally hcb, hmem, ne_eq, hcb,
      not_false_eq_true, true_and]
  constructor
  case stage =>
    intro c
    rcases eq_or_ne c b with rfl | hcb
    · have howns : tally Pc.owns c σ.calls = tally Pc.owns c rest := by
        rw [tally_perm hcalls, tally_cons]
        simp [Pc.owns]
      have hleaving := hl.leaving
      rw [tally_perm hcalls, tally_cons] at hleaving
      rw [Threads.refs, howns] at hrefs
      have hgone : Threads.view c { (σ.close c bo.handle) with
          boList := σ.boList.erase c, calls := .freeing c :: rest } = ⟨some bo, false, 0, 0, 1, 1, 0⟩ := by
        simp_all [Threads.view, Threads.refs, Threads.close, tally_cons, Pc.owns, Pc.pending, Pc.leaving, Pc.bo,
          hl.memory, hl.closes, hl.frees]
      rw [hgone]
      exact .leaving
    · rw [hview c hcb]
      exact h.stage c
  case nodup => exact h.nodup.erase b
  case own => exact fun hc hd => h.own (hmem.mp hc).2 (hmem.mp hd).2
  case opened =>
    intro c x hc hx
    obtain ⟨hcb, hc⟩ := hmem.mp hc
    have hne : x.handle ≠ bo.handle := fun hxb => hcb (h.own hc hl.mem hx hl.memory hxb)
    exact (Function.update_of_ne hne _ _).trans (h.opened hc hx)
  case locking =>
    intro c handle x hc hx
    exact h.locking (hrest _ ((List.mem_cons.mp hc).resolve_left nofun)) hx
  case closing =>
    intro c handle hc
    exact h.closing (hrest _ ((List.mem_cons.mp hc).resolve_left nofun))
  case fresh =>
    intro c hc
    have hcb : c ≠ b := by
      rintro rfl
      exact absurd (h.lt_fresh hl.memory) (Nat.not_lt.mpr hc)
    rw [hview c hcb]
    exact h.fresh hc

theorem boDelLocked_within {handle : Handle} (h : Inv σ) (hcalls : σ.calls.Perm (.locking b handle :: rest)) :
    Within Harmless (boDelLocked b handle rest σ) Inv := by
  obtain ⟨bo, hl, hpending⟩ := h.listed_of_pending hcalls rfl
  obtain rfl := h.locking (hcalls.mem_iff.mpr List.mem_cons_self) hl.memory
  refine (enabled_within).bind fun _ _ => (touch_within hl.memory).bind ?_
  rintro _ rfl
  rw [if_pos hl.name]
  split
  · exact .pure (h.pass [] hcalls rfl hl (by simp) rfl (hpending.le.trans (Nat.zero_le 1)) rfl)
  · next hzero => exact .pure (h.unlist hcalls hl (not_not.mp hzero) hpending)

/-- The memory of a buffer that left the list is freed. -/
theorem Inv.free (h : Inv σ) (hcalls : σ.calls.Perm (.freeing b :: rest)) : (∃ bo, σ.bo b = some bo) ∧
    Inv { σ with
      bo := Function.update σ.bo b none, frees := Function.update σ.frees b (σ.frees b + 1), calls := rest } := by
  have hrest : ∀ q ∈ rest, q ∈ σ.calls := fun q hq => hcalls.mem_iff.mpr (List.mem_cons_of_mem _ hq)
  obtain ⟨bo, hview⟩ := h.leaving (tally_pos (.freeing b) (hcalls.mem_iff.mpr List.mem_cons_self) rfl)
  have hb : σ.bo b = some bo := congrArg View.bo hview
  have hunlisted : b ∉ σ.boList := of_decide_eq_false (congrArg View.listed hview)
  have htally : ∀ {c} {q : Pc → Bool}, c ≠ b → tally q c rest = tally q c σ.calls := by
    intro c q hcb
    rw [tally_perm hcalls, tally_cons_of_ne (Ne.symm hcb)]
  have hother : ∀ c, c ≠ b → Threads.view c { σ with
      bo := Function.update σ.bo b none, frees := Function.update σ.frees b (σ.frees b + 1), calls := rest } =
        σ.view c := by
    intro c hcb
    simp only [Threads.view, Threads.refs, Function.update_of_ne hcb, htally hcb]
  have hback : ∀ {c x}, Function.update σ.bo b none c = some x → σ.bo c = some x := by
    intro c x hc
    rw [Function.update_apply] at hc
    split at hc
    · cases hc
    · exact hc
  refine ⟨⟨bo, hb⟩, ?_⟩
  constructor
  case stage =>
    intro c
    rcases eq_or_ne c b with rfl | hcb
    · have hgone : Threads.view c { σ with
          bo := Function.update σ.bo c none, frees := Function.update σ.frees c (σ.frees c + 1), calls := rest } =
            ⟨none, false, 0, 0, 0, 1, 1⟩ := by
        have hrefs := congrArg View.refs hview
        have hpending := congrArg View.pending hview
        have hleaving := congrArg View.leaving hview
        have hcloses := congrArg View.closes hview
        have hfrees := congrArg View.frees hview
        simp only [Threads.view, Threads.refs, tally_perm hcalls, tally_cons, Pc.owns, Pc.pending, Pc.leaving, Pc.bo,
          beq_self_eq_true, Bool.and_self, Bool.false_and, Bool.false_eq_true, if_true, if_false, Nat.add_zero]
          at hrefs hpending hleaving hcloses hfrees
        simp only [Threads.view, Threads.refs, Function.update_self, hunlisted, decide_false, hrefs, hpending, hcloses,
          hfrees]
        rw [Nat.add_right_cancel (hleaving.trans (Nat.zero_add 1).symm)]
      rw [hgone]
      exact .gone
    · rw [hother c hcb]
      exact h.stage c
  case nodup => exact h.nodup
  case own => exact fun hc hd hx hy => h.own hc hd (hback hx) (hback hy)
  case opened => exact fun hc hx => h.opened hc (hback hx)
  case locking => exact fun hc hx => h.locking (hrest _ hc) (hback hx)
  case closing => exact fun hc => h.closing (hrest _ hc)
  case fresh =>
    intro c hc
    have hcb : c ≠ b := by
      rintro rfl
      exact absurd (h.lt_fresh hb) (Nat.not_lt.mpr hc)
    rw [hother c hcb]
    exact h.fresh hc

/-! ## Buffers that are opened -/

theorem Inv.openHandle {handle : Handle} (h : Inv σ) :
    Inv { σ with opened := Function.update σ.opened handle true } := by
  refine ⟨h.stage, h.nodup, h.own, fun hc hx => ?_, h.locking, h.closing, h.fresh⟩
  show Function.update σ.opened handle true _ = true
  rw [Function.update_apply]
  split
  · rfl
  · exact h.opened hc hx

/-- A new buffer, under a handle that no listed one has. -/
theorem Inv.add {handle : Handle} {name : Nat} (h : Inv σ) (hopened : σ.opened handle = true) (hname : name ≠ 0)
    (hnew : ∀ d ∈ σ.boList, ∀ x, σ.bo d = some x → x.handle ≠ handle) :
    Inv (({ σ.setBo σ.fresh { handle, name } with
      fresh := σ.fresh + 1, boList := σ.fresh :: σ.boList } : Threads).take σ.fresh) := by
  have hunborn := h.fresh (le_refl σ.fresh)
  have hnone : σ.bo σ.fresh = none := congrArg View.bo hunborn
  have hunlisted : σ.fresh ∉ σ.boList := of_decide_eq_false (congrArg View.listed hunborn)
  have hother : ∀ c, c ≠ σ.fresh → Threads.view c (({ σ.setBo σ.fresh { handle, name } with
      fresh := σ.fresh + 1, boList := σ.fresh :: σ.boList } : Threads).take σ.fresh) = σ.view c := by
    intro c hc
    simp [Threads.view, Threads.refs, Threads.take, Threads.setBo, hc]
  have hmem : ∀ {c x}, c ∈ σ.fresh :: σ.boList → (σ.setBo σ.fresh { handle, name }).bo c = some x →
      c ∈ σ.boList ∧ c ≠ σ.fresh ∧ σ.bo c = some x ∨ c = σ.fresh ∧ x = { handle, name } := by
    intro c x hc hx
    rcases setBo_bo hx with hx | ⟨hcf, hx⟩
    · exact .inr hx
    · refine .inl ⟨?_, hcf, hx⟩
      exact (List.mem_cons.mp hc).resolve_left hcf
  constructor
  case stage =>
    intro c
    rcases eq_or_ne c σ.fresh with rfl | hc
    · have hlisted : Threads.view σ.fresh (({ σ.setBo σ.fresh { handle, name } with
          fresh := σ.fresh + 1, boList := σ.fresh :: σ.boList } : Threads).take σ.fresh) =
            ⟨some { handle, name }, true, 1, 0, 0, 0, 0⟩ := by
        have hrefs := congrArg View.refs hunborn
        have hpending := congrArg View.pending hunborn
        have hleaving := congrArg View.leaving hunborn
        have hcloses := congrArg View.closes hunborn
        have hfrees := congrArg View.frees hunborn
        simp only [Threads.view, Threads.refs, Nat.add_eq_zero_iff] at hrefs hpending hleaving hcloses hfrees
        simp [Threads.view, Threads.refs, Threads.take, Threads.setBo, hrefs.1, hrefs.2, hpending, hleaving, hcloses,
          hfrees]
      rw [hlisted]
      exact .listed hname rfl (Nat.zero_le 1)
    · rw [hother c hc]
      exact h.stage c
  case nodup => exact List.nodup_cons.mpr ⟨hunlisted, h.nodup⟩
  case own =>
    intro c d x y hc hd hx hy hxy
    rcases hmem hc hx with ⟨hc, -, hx⟩ | ⟨rfl, rfl⟩
    · rcases hmem hd hy with ⟨hd, -, hy⟩ | ⟨rfl, rfl⟩
      · exact h.own hc hd hx hy hxy
      · exact absurd hxy (hnew c hc x hx)
    · rcases hmem hd hy with ⟨hd, -, hy⟩ | ⟨rfl, -⟩
      · exact absurd hxy.symm (hnew d hd y hy)
      · rfl
  case opened =>
    intro c x hc hx
    rcases hmem hc hx with ⟨hc, -, hx⟩ | ⟨rfl, rfl⟩
    · exact h.opened hc hx
    · exact hopened
  case locking =>
    intro c k x hc hx
    rcases setBo_bo hx with ⟨rfl, -⟩ | ⟨-, hx⟩
    · exact absurd (h.mem_of_pos (.inr (tally_pos _ hc rfl))) hunlisted
    · exact h.locking hc hx
  case closing => exact h.closing
  case fresh =>
    intro c hc
    have hlt : σ.fresh < c := hc
    rw [hother c (Nat.ne_of_gt hlt)]
    exact h.fresh hlt.le

theorem Inv.alive (h : Inv σ) : ∀ b ∈ σ.boList, ∃ bo, σ.bo b = some bo := by
  intro b hb
  obtain ⟨bo, hl⟩ := h.listed hb
  exact ⟨bo, hl.memory⟩

theorem atomicInc_within (hb : σ.bo b = some bo) :
    Within Harmless (atomicInc b σ) fun σ' => σ' = σ.setBo b { bo with refcnt := bo.refcnt + 1 } := by
  refine (touch_within hb).bind ?_
  rintro _ rfl
  exact .pure rfl

/-- The buffer for a handle: it is listed, or it is made. -/
theorem wrapLocked_within {handle : Handle} {info alloc : Bool} (h : Inv σ) :
    Within Harmless (wrapLocked handle info alloc σ) fun r => match r.1 with
      | none => r.2 = σ
      | some b => (∃ bo, Listed b bo σ ∧ r.2 = σ.setBo b { bo with refcnt := bo.refcnt + 1 }) ∨
          (∀ d ∈ σ.boList, ∀ x, σ.bo d = some x → x.handle ≠ handle) ∧ b = σ.fresh ∧
            r.2 = { σ.setBo σ.fresh { handle } with fresh := σ.fresh + 1, boList := σ.fresh :: σ.boList } := by
  refine (findBo_within h.alive).bind ?_
  rintro (_ | b) hfound
  · have hnew : ∀ d ∈ σ.boList, ∀ x, σ.bo d = some x → x.handle ≠ handle := by
      intro d hd x hx
      simpa using hfound d hd x hx
    show Within Harmless (if info && alloc then _ else _) _
    split
    · exact .pure (.inr ⟨hnew, rfl, rfl⟩)
    · exact .pure rfl
  · obtain ⟨bo, hl⟩ := h.listed hfound
    refine (atomicInc_within hl.memory).bind ?_
    rintro _ rfl
    exact .pure (.inl ⟨bo, hl, rfl⟩)

/-- The name of what `wrapLocked` returned is set, and the caller has it. -/
theorem Inv.wrapped {handle : Handle} {σ₁ : Threads} (name : Bo → Nat) (h : Inv σ) (hopened : σ.opened handle = true)
    (hname : ∀ bo, name bo ≠ 0)
    (hwrap : (∃ bo, Listed b bo σ ∧ σ₁ = σ.setBo b { bo with refcnt := bo.refcnt + 1 }) ∨
      (∀ d ∈ σ.boList, ∀ x, σ.bo d = some x → x.handle ≠ handle) ∧ b = σ.fresh ∧
        σ₁ = { σ.setBo σ.fresh { handle } with fresh := σ.fresh + 1, boList := σ.fresh :: σ.boList }) :
    ∃ bo, σ₁.bo b = some bo ∧ Inv ((σ₁.setBo b { bo with name := name bo }).take b) := by
  rcases hwrap with ⟨bo, hl, rfl⟩ | ⟨hnew, rfl, rfl⟩
  · refine ⟨{ bo with refcnt := bo.refcnt + 1 }, by simp [Threads.setBo], ?_⟩
    rw [setBo_setBo]
    exact h.gain hl (hname _)
  · refine ⟨{ handle }, by simp [Threads.setBo], ?_⟩
    have hadd := h.add hopened (hname { handle }) hnew
    simpa only [Threads.setBo, Function.update_idem] using hadd

theorem nameRef_within {name : Nat} {reply : Option Handle} {info alloc : Bool} (h : Inv σ)
    (hname : reply.isSome → name ≠ 0) : Within Harmless (nameRef name reply info alloc σ) Inv := by
  refine (enabled_within).bind fun _ _ => (findBo_within h.alive).bind ?_
  rintro (_ | b) hfound
  · cases reply with
    | none => exact .pure ⟨h.stage, h.nodup, h.own, h.opened, h.locking, h.closing, h.fresh⟩
    | some handle =>
        refine (wrapLocked_within h.openHandle).bind ?_
        rintro ⟨_ | b, σ₁⟩ hwrap
        · exact .error fun _ => nofun
        · obtain ⟨bo, hb, hinv⟩ := Inv.wrapped (fun _ => name) h.openHandle (Function.update_self ..)
            (fun _ => hname rfl) hwrap
          refine (touch_within hb).bind ?_
          rintro _ rfl
          exact .pure hinv
  · obtain ⟨bo, hl⟩ := h.listed hfound
    refine (atomicInc_within hl.memory).bind ?_
    rintro _ rfl
    exact .pure (h.gain hl hl.name)

theorem primeHandleRef_within {reply : Option Handle} {info alloc : Bool} (h : Inv σ) :
    Within Harmless (primeHandleRef reply info alloc σ) Inv := by
  refine (enabled_within).bind fun _ _ => ?_
  cases reply with
  | none => exact .pure h
  | some handle =>
      refine (wrapLocked_within h.openHandle).bind ?_
      rintro ⟨_ | b, σ₁⟩ hwrap
      · obtain rfl : σ₁ = _ := hwrap
        exact .pure h.openHandle
      · have hname : ∀ bo : Bo, (if bo.name = 0 then primeName else bo.name) ≠ 0 := by
          intro bo
          split
          · decide
          · assumption
        obtain ⟨bo, hb, hinv⟩ := Inv.wrapped (fun bo => if bo.name = 0 then primeName else bo.name) h.openHandle
          (Function.update_self ..) hname hwrap
        refine (touch_within hb).bind ?_
        rintro _ rfl
        exact .pure hinv

/-! ## Runs -/

/-- The count of a buffer goes to zero only when no call waits to delete it. -/
def Move.Settled (σ : Threads) : Move → Prop
  | .advance i => ∀ b rest, σ.pick i = .ok (.dropping b, rest) → ∀ bo, σ.bo b = some bo → bo.refcnt = 1 →
      ∀ pc ∈ rest, pc.pending = true → pc.bo ≠ b
  | _ => True

/-- The kernel opens no object under the name 0. -/
def Move.Answered : Move → Prop
  | .nameRef name reply _ _ => reply.isSome → name ≠ 0
  | _ => True

theorem refInc_within {bo : Option BoId} (h : Inv σ) (hheld : ∀ b, bo = some b → 0 < σ.callers b) :
    Within Harmless (refInc bo σ) fun σ₁ => Inv σ₁ ∧ ∀ b, σ.callers b ≤ σ₁.callers b := by
  cases bo with
  | none => exact .ok ⟨h, fun _ => le_rfl⟩
  | some b =>
      have hpos := hheld b rfl
      obtain ⟨bo, hl⟩ := h.listed (h.mem_of_pos (.inl (Nat.lt_of_lt_of_le hpos (Nat.le_add_right _ _))))
      refine (atomicInc_within hl.memory).bind ?_
      rintro _ rfl
      refine .pure ⟨h.gain hl hl.name, fun c => ?_⟩
      show σ.callers c ≤ Function.update σ.callers b (σ.callers b + 1) c
      rw [Function.update_apply]
      split
      · next hcb => rw [hcb]; exact Nat.le_succ _
      · exact le_rfl

theorem refStart_within {bo ref : Option BoId} (h : Inv σ) : Within Harmless (refStart bo ref σ) Inv := by
  refine (enabled_within).bind fun _ henabled => ?_
  rw [Bool.and_eq_true] at henabled
  have hheld : ∀ b, bo = some b → 0 < σ.callers b := by
    rintro b rfl
    simpa using henabled.1
  refine (refInc_within h hheld).bind ?_
  rintro σ₁ ⟨h₁, hcallers⟩
  cases ref with
  | none => exact .pure h₁
  | some b =>
      have hpos : 0 < σ.callers b := by simpa using henabled.2
      exact .pure (h₁.start (hpos.trans_le (hcallers b)))

theorem advance_within {i : Nat} (h : Inv σ) (hsettled : (Move.advance i).Settled σ) :
    Within Harmless (advance i σ) Inv := by
  unfold advance
  cases hpick : σ.pick i with
  | error fault => exact .error (pick_within.2 fault hpick)
  | ok r =>
      obtain ⟨pc, rest⟩ := r
      have hcalls := pick_spec (pc, rest) hpick
      cases pc with
      | dropping b =>
          refine atomicDecAndTest_within h hcalls fun bo hb hone => ?_
          refine List.countP_eq_zero.mpr fun pc hpc => ?_
          have := hsettled b rest hpick bo hb hone pc hpc
          simpa using this
      | deleting b =>
          obtain ⟨bo, hl, hpending⟩ : ∃ bo, Listed b bo σ ∧ tally Pc.pending b rest = 0 :=
            h.listed_of_pending hcalls rfl
          refine (touch_within hl.memory).bind ?_
          rintro _ rfl
          refine .pure (h.pass [.locking b bo.handle] hcalls rfl hl (by simp [Pc.bo]) rfl ?_ rfl)
          show tally Pc.pending b (.locking b bo.handle :: rest) ≤ 1
          rw [tally_cons, hpending]
          split
          · exact le_rfl
          · exact Nat.zero_le 1
      | locking b handle => exact boDelLocked_within h hcalls
      | closing b handle => exact absurd (hcalls.mem_iff.mpr List.mem_cons_self) h.closing
      | freeing b =>
          obtain ⟨⟨bo, hb⟩, hfree⟩ := h.free hcalls
          exact (touch_within hb).bind fun _ _ => .pure hfree

theorem Move.run_within {m : Move} (h : Inv σ) (hsettled : m.Settled σ) (hanswered : m.Answered) :
    Within Harmless (m.run σ) Inv := by
  cases m with
  | ref bo ref => exact refStart_within h
  | nameRef name reply info alloc => exact nameRef_within h hanswered
  | primeHandleRef reply info alloc => exact primeHandleRef_within h
  | advance i => exact advance_within h hsettled

/-- A device with buffers that have names, and with the references of the callers only. -/
structure Threads.Init (σ : Threads) : Prop where
  calls : σ.calls = []
  nodup : σ.boList.Nodup
  listed : ∀ b, b ∈ σ.boList → ∃ bo, σ.bo b = some bo ∧ bo.name ≠ 0 ∧ bo.refcnt = σ.callers b ∧ 0 < σ.callers b ∧
    σ.opened bo.handle = true ∧ b < σ.fresh
  unlisted : ∀ b, b ∉ σ.boList → σ.bo b = none ∧ σ.callers b = 0
  own : ∀ b d x y, σ.bo b = some x → σ.bo d = some y → x.handle = y.handle → b = d
  closes : ∀ b, σ.closes b = 0
  frees : ∀ b, σ.frees b = 0

theorem Inv.of_init (h : σ.Init) : Inv σ := by
  have hnone : ∀ b, b ∉ σ.boList → σ.view b = ⟨none, false, 0, 0, 0, 0, 0⟩ := by
    intro b hb
    obtain ⟨hbo, hcallers⟩ := h.unlisted b hb
    simp [Threads.view, Threads.refs, hb, hbo, hcallers, h.calls, h.closes, h.frees]
  constructor
  case stage =>
    intro b
    by_cases hb : b ∈ σ.boList
    · obtain ⟨bo, hbo, hname, hrefcnt, -⟩ := h.listed b hb
      exact Listed.stage ⟨hb, hbo, hname, by simp [Threads.refs, h.calls, hrefcnt], by simp [h.calls], by simp [h.calls],
        h.closes b, h.frees b⟩
    · rw [hnone b hb]
      exact .unborn
  case nodup => exact h.nodup
  case own => exact fun _ _ hx hy => h.own _ _ _ _ hx hy
  case opened =>
    intro b x hb hx
    obtain ⟨bo, hbo, -, -, -, hopened, -⟩ := h.listed b hb
    cases hbo.symm.trans hx
    exact hopened
  case locking =>
    intro b handle x hmem
    rw [h.calls] at hmem
    cases hmem
  case closing =>
    intro b handle hmem
    rw [h.calls] at hmem
    cases hmem
  case fresh =>
    intro b hb
    refine hnone b fun hmem => ?_
    obtain ⟨bo, -, -, -, -, -, hlt⟩ := h.listed b hmem
    exact absurd hlt (Nat.not_lt.mpr hb)

def Threads.Step (σ σ' : Threads) : Prop := ∃ m : Move, m.run σ = .ok σ' ∧ m.Answered

def Threads.SettledStep (σ σ' : Threads) : Prop := ∃ m : Move, m.run σ = .ok σ' ∧ m.Answered ∧ m.Settled σ

theorem inv_of_runs (h : Runs Threads.Init Threads.SettledStep σ) : Inv σ := by
  refine Runs.induct (I := Inv) (fun σ hσ => Inv.of_init hσ) ?_ h
  rintro σ σ' hσ ⟨m, hrun, hanswered, hsettled⟩
  exact (Move.run_within hσ hsettled hanswered).1 σ' hrun

/-- What the callers of the calls rely on. -/
structure Lifetime (σ : Threads) : Prop where
  once : ∀ b, σ.closes b ≤ 1 ∧ σ.frees b ≤ 1
  held : ∀ b, 0 < σ.refs b → σ.closes b = 0 ∧ σ.frees b = 0 ∧ ∃ bo, σ.bo b = some bo ∧ σ.opened bo.handle = true

theorem Inv.lifetime (h : Inv σ) : Lifetime σ := by
  refine ⟨fun b => ?_, fun b hpos => ?_⟩
  · have hstage := h.stage b
    generalize hv : σ.view b = v at hstage
    have hcloses : σ.closes b = v.closes := congrArg View.closes hv
    have hfrees : σ.frees b = v.frees := congrArg View.frees hv
    rw [hcloses, hfrees]
    cases hstage with
    | unborn => exact ⟨Nat.zero_le 1, Nat.zero_le 1⟩
    | listed => exact ⟨Nat.zero_le 1, Nat.zero_le 1⟩
    | leaving => exact ⟨le_rfl, Nat.zero_le 1⟩
    | gone => exact ⟨le_rfl, le_rfl⟩
  · obtain ⟨bo, hl⟩ := h.listed (h.mem_of_pos (.inl hpos))
    exact ⟨hl.closes, hl.frees, bo, hl.memory, h.opened hl.mem hl.memory⟩

/-- As long as no count goes to zero while a call waits to delete the buffer: every buffer is closed and freed at most
    once, not while there is a reference to it, and no step reads memory that was freed. -/
theorem bo_lifetime (h : Runs Threads.Init Threads.SettledStep σ) :
    Lifetime σ ∧ ∀ m : Move, m.Answered → m.Settled σ → ∀ b, m.run σ ≠ .error (.freed b) := by
  have hinv := inv_of_runs h
  refine ⟨hinv.lifetime, fun m hanswered hsettled b hrun => ?_⟩
  exact (Move.run_within hinv hsettled hanswered).2 (.freed b) hrun b rfl

/-- A device with one buffer, which has the name 5 and one reference. -/
def oneShared : Threads where
  bo := Function.update (fun _ => none) 0 (some { handle := 1, name := 5 })
  fresh := 1
  boList := [0]
  opened := fun handle => handle = 1
  callers := Function.update (fun _ => 0) 0 1

theorem oneShared_init : oneShared.Init := by
  have hzero : ∀ b, b ∉ [0] → b ≠ 0 := fun b hb => by simpa using hb
  constructor
  case calls => rfl
  case nodup => exact List.nodup_singleton 0
  case listed =>
    intro b hb
    obtain rfl := List.mem_singleton.mp hb
    exact ⟨_, rfl, by decide, rfl, Nat.one_pos, rfl, Nat.one_pos⟩
  case unlisted =>
    intro b hb
    exact ⟨by simp [oneShared, hzero b hb], by simp [oneShared, hzero b hb]⟩
  case own =>
    intro b d x y hb hd _
    have hone : ∀ {c z}, oneShared.bo c = some z → c = 0 := by
      intro c z hc
      by_contra hne
      rw [show oneShared.bo c = none by simp [oneShared, hne]] at hc
      cases hc
    rw [hone hb, hone hd]
  case closes => exact fun _ => rfl
  case frees => exact fun _ => rfl

theorem Threads.settledSteps (m : Move) (h : Runs Threads.Init Threads.SettledStep σ) (hrun : m.run σ = .ok σ')
    (hanswered : m.Answered) (hsettled : m.Settled σ) : Runs Threads.Init Threads.SettledStep σ' :=
  h.step ⟨m, hrun, hanswered, hsettled⟩

theorem Threads.steps (m : Move) (h : Runs Threads.Init Threads.Step σ) (hrun : m.run σ = .ok σ')
    (hanswered : m.Answered) : Runs Threads.Init Threads.Step σ' := h.step ⟨m, hrun, hanswered⟩

/-- A buffer that is revived before the call that would delete it has the lock, and deleted by the next one. -/
theorem bo_lifetime_once : ∃ σ, Runs Threads.Init Threads.SettledStep σ ∧ σ.closes 0 = 1 ∧ σ.frees 0 = 1 ∧
    Lifetime σ := by
  have hlast : ∀ {σ : Threads} {pc}, σ.calls = [pc] → (Move.advance 0).Settled σ := by
    intro σ pc hcalls b rest hpick
    simp only [Threads.pick, hcalls] at hpick
    cases hpick
    exact fun _ _ _ q hq => absurd hq List.not_mem_nil
  have h₁ := Threads.settledSteps (.ref none (some 0)) (.init oneShared_init) rfl trivial trivial
  have h₂ := Threads.settledSteps (.advance 0) h₁ rfl trivial (hlast rfl)
  have h₃ := Threads.settledSteps (.nameRef 5 none true true) h₂ rfl nofun trivial
  have h₄ := Threads.settledSteps (.advance 0) h₃ rfl trivial (hlast rfl)
  have h₅ := Threads.settledSteps (.advance 0) h₄ rfl trivial (hlast rfl)
  have h₆ := Threads.settledSteps (.ref none (some 0)) h₅ rfl trivial trivial
  have h₇ := Threads.settledSteps (.advance 0) h₆ rfl trivial (hlast rfl)
  have h₈ := Threads.settledSteps (.advance 0) h₇ rfl trivial (hlast rfl)
  have h₉ := Threads.settledSteps (.advance 0) h₈ rfl trivial (hlast rfl)
  have h₁₀ := Threads.settledSteps (.advance 0) h₉ rfl trivial (hlast rfl)
  exact ⟨_, h₁₀, rfl, rfl, (bo_lifetime h₁₀).1⟩

/-- A buffer that is revived and dropped again before the first call has the lock: both calls delete it. -/
theorem bo_lifetime_revived : ∃ σ, Runs Threads.Init Threads.Step σ ∧ σ.closes 0 = 2 ∧ ¬ Lifetime σ ∧
    (Move.advance 0).run σ = .error (.freed 0) := by
  have h₁ := Threads.steps (.ref none (some 0)) (.init oneShared_init) rfl trivial
  have h₂ := Threads.steps (.advance 0) h₁ rfl trivial
  have h₃ := Threads.steps (.nameRef 5 none true true) h₂ rfl nofun
  have h₄ := Threads.steps (.ref none (some 0)) h₃ rfl trivial
  have h₅ := Threads.steps (.advance 0) h₄ rfl trivial
  have h₆ := Threads.steps (.advance 0) h₅ rfl trivial
  have h₇ := Threads.steps (.advance 1) h₆ rfl trivial
  have h₈ := Threads.steps (.advance 0) h₇ rfl trivial
  have h₉ := Threads.steps (.advance 1) h₈ rfl trivial
  have h₁₀ := Threads.steps (.advance 0) h₉ rfl trivial
  exact ⟨_, h₁₀, rfl, fun h => absurd (h.once 0).1 (by decide), rfl⟩

end LibDrm.Nouveau
