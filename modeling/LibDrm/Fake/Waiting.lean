/-
# `LibDrm.Fake.Waiting` — whether waiting makes progress

`_fence_wait_internal` ends in one of three ways: the fence has passed and the list
is cleared, the kernel reports an error, or the counter of the hardware is seen to have
started again ahead of the fence (case C of the comment in the code).  In the last case
it returns without clearing the list, although the fence has passed.

The loops of `evict_and_alloc_block` wait for the first fenced block until the list is
empty.  A wait that clears takes at least that block off the list.
-/
import LibDrm.Fake.Fences

namespace LibDrm.Fake

variable {s s' s₁ : State} {b : BoId} {bo : Bo} {k : BlockId} {blk : Block} {first : Nat} {stamp : BlockId → Nat}
  {env : Env}

/-- A round that is started finds the counter of the hardware far behind the fence. -/
def CaseC (seq : Int) (rounds : List Round) (busyCount : Nat) : Prop :=
  ∃ before r after, rounds = before ++ r :: after ∧ waitRounds seq before busyCount = .waiting ∧ seq - r.hwSeq > 0x40000000

/-- The first round of a wait that does not return at once: the others follow, or it ends. -/
theorem waitRounds_cons (seq : Int) (r : Round) (busyCount : Nat) (hC : ¬ seq - r.hwSeq > 0x40000000) :
    (∃ n, ∀ rs, waitRounds seq (r :: rs) busyCount = waitRounds seq rs n) ∨
      ∃ e : WaitExit, e ≠ .waiting ∧ e ≠ .returned ∧ ∀ rs, waitRounds seq (r :: rs) busyCount = e := by
  simp only [waitRounds, if_neg hC]
  generalize (if r.ret = -EBUSY ∧ seq - r.wrapped > 0x40000000 then 0 else r.ret) = ret
  generalize (if ret = -EBUSY ∧ r.hwSeq ≠ r.progress then 0 else busyCount + 1) = n
  split
  · exact .inl ⟨_, fun _ => rfl⟩
  · split
    · exact .inr ⟨.failed, nofun, nofun, fun _ => rfl⟩
    · exact .inr ⟨.done, nofun, nofun, fun _ => rfl⟩

theorem waitRounds_eq_returned_iff (seq : Int) (rounds : List Round) (busyCount : Nat) :
    waitRounds seq rounds busyCount = .returned ↔ CaseC seq rounds busyCount := by
  induction rounds generalizing busyCount with
  | nil =>
      refine ⟨nofun, ?_⟩
      rintro ⟨before, r, after, heq, _⟩
      cases before with
      | nil => cases heq
      | cons _ _ => cases heq
  | cons r rs ih =>
      by_cases hC : seq - r.hwSeq > 0x40000000
      · have hreturned : waitRounds seq (r :: rs) busyCount = .returned := by rw [waitRounds, if_pos hC]
        exact ⟨fun _ => ⟨[], r, rs, rfl, rfl, hC⟩, fun _ => hreturned⟩
      · -- the round before which nothing was waited for is not the one
        have hsplit : CaseC seq (r :: rs) busyCount ↔ ∃ before r' after, rs = before ++ r' :: after ∧
            waitRounds seq (r :: before) busyCount = .waiting ∧ seq - r'.hwSeq > 0x40000000 := by
          constructor
          · rintro ⟨before, r', after, heq, hwaiting, hC'⟩
            cases before with
            | nil =>
                cases heq
                exact absurd hC' hC
            | cons r₀ before =>
                cases heq
                exact ⟨before, r', after, rfl, hwaiting, hC'⟩
          · rintro ⟨before, r', after, rfl, hwaiting, hC'⟩
            exact ⟨r :: before, r', after, rfl, hwaiting, hC'⟩
        rw [hsplit]
        rcases waitRounds_cons seq r busyCount hC with ⟨n, hn⟩ | ⟨e, hwaiting, hreturned, he⟩
        · simp only [hn]
          exact ih n
        · simp only [he]
          exact ⟨fun h => absurd h hreturned, fun ⟨_, _, _, _, h, _⟩ => absurd h hwaiting⟩

/-- The wait clears the list when it returns. -/
def Env.Clears (env : Env) (fence : UInt32) (s : State) : Prop :=
  env.fenceCallback = true ∨ ¬ CaseC (CInt.int32 fence.toNat) (env.rounds s.waits) 0

/-- The state in which the list is looked at. -/
def Env.waited (env : Env) (s : State) : State := if env.fenceCallback then s else { s with waits := s.waits + 1 }

theorem fenceWaitInternal_of_clears {fence : UInt32} (h : env.Clears fence s) (hrun : fenceWaitInternal env fence s = .ok s') :
    clearFenced fence (env.waited s) = .ok s' := by
  unfold fenceWaitInternal at hrun
  unfold Env.waited
  split at hrun
  · case isTrue hcallback =>
      rw [if_pos hcallback]
      exact hrun
  · case isFalse hcallback =>
      rw [if_neg hcallback]
      dsimp only at hrun
      split at hrun
      · cases hrun
      · case h_2 hreturned => exact absurd ((waitRounds_eq_returned_iff _ _ _).mp hreturned) (h.resolve_left hcallback)
      · cases hrun
      · exact hrun

theorem fenceWaitInternal_of_not_clears {fence : UInt32} (h : ¬ env.Clears fence s) :
    fenceWaitInternal env fence s = .ok { s with waits := s.waits + 1 } := by
  unfold Env.Clears at h
  rw [not_or, not_not] at h
  unfold fenceWaitInternal
  rw [if_neg h.1]
  dsimp only
  rw [(waitRounds_eq_returned_iff _ _ _).mpr h.2]

theorem Ordered.waited (h : Ordered first stamp s) (env : Env) : Ordered first stamp (env.waited s) := by
  unfold Env.waited
  split
  · exact h
  · have hrel : Relisted s { s with waits := s.waits + 1 } := ⟨rfl, rfl, rfl, rfl, rfl, rfl, fun _ => rfl⟩
    exact ⟨(h.links.counters hrel rfl ⟨rfl, rfl, rfl⟩).1, h.fence, h.past, h.order⟩

theorem waited_fenced (env : Env) (s : State) : (env.waited s).fenced = s.fenced := by
  unfold Env.waited
  split
  · rfl
  · rfl

/-- In a list in order, the elements up to a bound are all dropped exactly when each of them passes. -/
theorem forall_dropWhile_iff {l : List BlockId} {p : BlockId → Bool} {n : Nat}
    (h : l.Pairwise fun j k => stamp j ≤ stamp k) :
    (∀ k ∈ l.dropWhile p, n < stamp k) ↔ ∀ k ∈ l, stamp k ≤ n → p k = true := by
  induction l with
  | nil => exact ⟨fun _ k hk => absurd hk List.not_mem_nil, fun _ k hk => absurd hk List.not_mem_nil⟩
  | cons k l ih =>
      obtain ⟨hlater, h⟩ := List.pairwise_cons.mp h
      rw [List.forall_mem_cons]
      cases hk : p k with
      | true =>
          rw [List.dropWhile_cons_of_pos hk, ih h]
          exact ⟨fun hl => ⟨fun _ => rfl, hl⟩, fun hl => hl.2⟩
      | false =>
          rw [List.dropWhile_cons_of_neg (by rw [hk]; exact Bool.false_ne_true), List.forall_mem_cons]
          constructor
          · rintro ⟨hn, hl⟩
            exact ⟨fun hle => absurd hn (Nat.not_lt.mpr hle), fun j hj hle => absurd (hl j hj) (Nat.not_lt.mpr hle)⟩
          · rintro ⟨hn, _⟩
            have hlt : n < stamp k := Nat.lt_of_not_le fun hle => Bool.false_ne_true (hn hle)
            exact ⟨hlt, fun j hj => Nat.lt_of_lt_of_le hlt (hlater j hj)⟩

/-- What is left on the list after a wait. -/
theorem Ordered.wait_iff (h : Ordered first stamp s) {n : Nat}
    (hrun : fenceWaitInternal env (cookieAt (first + n)) s = .ok s') :
    (∀ k ∈ s'.fenced, n < stamp k) ↔ (∀ k ∈ s.fenced, n < stamp k) ∨ (env.Clears (cookieAt (first + n)) s ∧
      ∀ k ∈ s.fenced, stamp k ≤ n → fenceLte (cookieAt (first + stamp k)) (cookieAt (first + n)) = true) := by
  by_cases hclears : env.Clears (cookieAt (first + n)) s
  · have hfenced := ((h.waited env).clearFenced _).1 s' (fenceWaitInternal_of_clears hclears hrun)
    rw [hfenced, waited_fenced, forall_dropWhile_iff h.order]
    refine ⟨fun hall => .inr ⟨hclears, hall⟩, ?_⟩
    rintro (hnone | ⟨_, hall⟩)
    · exact fun k hk hle => absurd (hnone k hk) (Nat.not_lt.mpr hle)
    · exact hall
  · rw [fenceWaitInternal_of_not_clears hclears] at hrun
    cases hrun
    exact ⟨.inl, fun hor => hor.resolve_right fun h => hclears h.1⟩

/-! ## The loops of `evict_and_alloc_block` -/

/-- The fence that the loop waits for. -/
def State.firstFence (s : State) : Option UInt32 := s.fenced.head?.bind fun k => (s.block k).map Block.fence

section Loop

variable (env : Env) (next : State → Except Fault (Bool × State))

/-- One round of the loop after which it goes on. -/
def Env.Round (s s' : State) : Prop :=
  ∃ fence s₁, s.firstFence = some fence ∧ fenceWaitInternal env fence s = .ok s₁ ∧ next s₁ = .ok (false, s')

/-- The states to which the loop comes before its rounds. -/
def Env.Comes : State → State → Prop := Relation.ReflTransGen (env.Round next)

/-- The wait that the loop makes does not end. -/
def Env.Hangs (s : State) : Prop :=
  ∃ fence, s.firstFence = some fence ∧ env.fenceCallback = false ∧
    waitRounds (CInt.int32 fence.toNat) (env.rounds s.waits) 0 = .waiting

/-- The wait that the loop makes ends in case C. -/
def Env.Ahead (s : State) : Prop := ∃ fence, s.firstFence = some fence ∧ ¬ env.Clears fence s

/-- This wait and all later ones end in case C, and what is tried after each of them fails. -/
def Env.Stuck (s : State) : Prop := ∀ s', env.Comes next s s' → env.Ahead s' ∧ ∃ s'', env.Round next s' s''

/-- Each wait that the loop makes ends, and it does not get stuck. -/
def Env.Answers (s : State) : Prop := ∀ s', env.Comes next s s' → ¬ env.Hangs s' ∧ ¬ env.Stuck next s'

/-- None of the waits that the loop makes hangs or ends in case C. -/
def Env.Calm (s : State) : Prop := ∀ s', env.Comes next s s' → ¬ env.Hangs s' ∧ ¬ env.Ahead s'

/-- The state in which a round leaves the loop to go on. -/
def goesOn : Except Fault (Bool × State) → Option State
  | .ok (false, s) => some s
  | _ => none

/-- The same as a check of the first rounds. -/
def Env.calm : Nat → State → Bool
  | 0, _ => false
  | n + 1, s =>
      match s.firstFence with
      | none => true
      | some fence =>
          let wait := waitRounds (CInt.int32 fence.toNat) (env.rounds s.waits) 0
          (env.fenceCallback || (wait != .waiting && wait != .returned)) &&
            (goesOn (fenceWaitInternal env fence s >>= next)).all fun s' => Env.calm n s'

end Loop

variable {next : State → Except Fault (Bool × State)}

theorem goesOn_of_round (h : env.Round next s s') :
    ∃ fence, s.firstFence = some fence ∧ goesOn (fenceWaitInternal env fence s >>= next) = some s' := by
  obtain ⟨fence, s₁, hfence, hwait, htry⟩ := h
  refine ⟨fence, hfence, ?_⟩
  rw [hwait]
  show goesOn (next s₁) = some s'
  rw [htry]
  rfl

theorem calm_of_check {n : Nat} (h : env.calm next n s = true) : env.Calm next s := by
  induction n generalizing s with
  | zero => cases h
  | succ n ih =>
      unfold Env.calm at h
      intro s' hcomes
      cases hfence : s.firstFence with
      | none =>
          rcases Relation.ReflTransGen.cases_head hcomes with rfl | ⟨s₁, hround, _⟩
          · constructor
            · rintro ⟨_, hf, _⟩
              cases hf.symm.trans hfence
            · rintro ⟨_, hf, _⟩
              cases hf.symm.trans hfence
          · obtain ⟨_, hf, _⟩ := goesOn_of_round hround
            cases hf.symm.trans hfence
      | some fence =>
          rw [hfence] at h
          obtain ⟨hwait, hrest⟩ := (Bool.and_eq_true _ _).mp h
          rcases Relation.ReflTransGen.cases_head hcomes with rfl | ⟨s₁, hround, hlater⟩
          · rw [Bool.or_eq_true, Bool.and_eq_true, bne_iff_ne, bne_iff_ne] at hwait
            constructor
            · rintro ⟨f, hf, hcallback, hwaiting⟩
              obtain rfl := Option.some.inj (hf.symm.trans hfence)
              rw [hcallback] at hwait
              exact (hwait.resolve_left Bool.false_ne_true).1 hwaiting
            · rintro ⟨f, hf, hnot⟩
              obtain rfl := Option.some.inj (hf.symm.trans hfence)
              exact hnot (hwait.imp_right fun hw hC => hw.2 ((waitRounds_eq_returned_iff _ _ _).mpr hC))
          · obtain ⟨f, hf, hgoes⟩ := goesOn_of_round hround
            obtain rfl := Option.some.inj (hf.symm.trans hfence)
            rw [hgoes] at hrest
            exact ih hrest s' hlater

/-- A round that goes on is one round of the fuel. -/
theorem waitLoop_round (h : env.Round next s s') (n : Nat) : waitLoop env next (n + 1) s = waitLoop env next n s' := by
  obtain ⟨fence, s₁, hfence, hwait, htry⟩ := h
  obtain ⟨k, hk, hfence⟩ := Option.bind_eq_some_iff.mp hfence
  obtain ⟨blk, hblk, rfl⟩ := Option.map_eq_some_iff.mp hfence
  obtain ⟨ks, hfenced⟩ := List.head?_eq_some_iff.mp hk
  rw [waitLoop, hfenced]
  dsimp only
  rw [State.getBlock, hblk]
  show (fenceWaitInternal env blk.fence s >>= _) = _
  rw [hwait]
  show (next s₁ >>= _) = _
  rw [htry]
  rfl

theorem fenceWaitInternal_ends (h : Ordered first stamp s) {fence : UInt32} (hfence : s.firstFence = some fence)
    (hhangs : ¬ env.Hangs s) : fenceWaitInternal env fence s ≠ .error .endless := by
  have hclear : ∀ s₁, Ordered first stamp s₁ → clearFenced fence s₁ ≠ .error .endless := by
    intro s₁ h₁ hendless
    cases (h₁.clearFenced fence).2 _ hendless
  unfold fenceWaitInternal
  split
  · exact hclear s h
  · case isFalse hcallback =>
      have hwaited := h.waited env
      rw [Env.waited, if_neg hcallback] at hwaited
      dsimp only
      split
      · case h_1 hwaiting => exact absurd ⟨fence, hfence, eq_false_of_ne_true hcallback, hwaiting⟩ hhangs
      · rintro ⟨⟩
      · rintro ⟨⟩
      · exact hclear _ hwaited

/-- What is tried after each wait. -/
structure Tries (b : BoId) (bo : Bo) (next : State → Except Fault (Bool × State)) : Prop where
  getter : Getter Nobody Everybody b bo next
  quiet : ∀ s, Ensures (next s) fun r => Quiet s r.2
  ends : ∀ s, next s ≠ .error .endless

theorem allocBlock_tries (hnone : bo.block = none) : Tries b bo (allocBlock b) := by
  refine ⟨allocBlock_getter hnone, fun s => Ensures.quiet (allocBlock_tidies b s), fun s hendless => ?_⟩
  have hget : Within (· ≠ .endless) (s.getBo b) fun _ => True := by
    unfold State.getBo
    split
    · exact .ok trivial
    · exact .error nofun
  have hheap : ∀ {α : Type} (x : Except Mm.Fault α), Within (· ≠ .endless) (onHeap x) fun _ => True := by
    intro α x
    cases x with
    | error e => exact .error nofun
    | ok a => exact .ok trivial
  have hends : Within (· ≠ .endless) (allocBlock b s) fun _ => True := by
    unfold allocBlock
    refine hget.bind fun bo _ => (hheap _).bind fun r _ => ?_
    obtain ⟨mem, heapMem⟩ := r
    cases mem with
    | none => exact .pure trivial
    | some mem => exact .pure trivial
  exact hends.2 _ hendless rfl

theorem never_tries : Tries b bo fun s => .ok (false, s) := ⟨never_getter, fun s => .ok (.refl s), fun _ => nofun⟩

/-- The block whose fence is waited for. -/
theorem firstFence_eq {fence : UInt32} (h : s.firstFence = some fence) :
    ∃ k ks blk, s.fenced = k :: ks ∧ s.block k = some blk ∧ blk.fence = fence := by
  obtain ⟨k, hk, hfence⟩ := Option.bind_eq_some_iff.mp h
  obtain ⟨blk, hblk, hfence⟩ := Option.map_eq_some_iff.mp hfence
  obtain ⟨ks, hfenced⟩ := List.head?_eq_some_iff.mp hk
  exact ⟨k, ks, blk, hfenced, hblk, hfence⟩

/-- A round keeps the order of the fences.  Unless it ends in case C it takes the first block off the list, for a
    fence is always seen to be no later than itself. -/
theorem Env.Round.shorter (hnext : Tries b bo next) (hnone : bo.block = none) (h : Ordered first stamp s)
    (hb : s.bo b = some bo) (hround : env.Round next s s') :
    Ordered first stamp s' ∧ s'.bo b = some bo ∧ s'.fenced.length ≤ s.fenced.length ∧
      (¬ env.Ahead s → s'.fenced.length < s.fenced.length) := by
  obtain ⟨fence, s₁, hfence, hwait, htry⟩ := hround
  obtain ⟨hlinks₁, hcleared⟩ := fenceWaitInternal_ensures h.links env fence s₁ hwait
  have hon₁ := (fenceWaitInternal_tidies env fence s s₁ hwait).moves h.links.fresh
  have hb₁ := hcleared.evicted.unblocked b bo hb hnone
  obtain ⟨hlinks₂, hev⟩ := (hnext.getter s₁ hlinks₁ hb₁ _ htry).1 rfl
  have hon₂ := (hnext.quiet s₁ _ htry).moves hlinks₁.fresh
  have hle : s'.fenced.length ≤ s₁.fenced.length := hon₂.fenced.length_le
  refine ⟨h.onward hlinks₂ (hon₁.trans hon₂), hev.unblocked b bo hb₁ hnone, hle.trans hon₁.fenced.length_le, ?_⟩
  intro hahead
  have hclears : env.Clears fence s := by_contra fun hnot => hahead ⟨fence, hfence, hnot⟩
  obtain ⟨k, ks, blk, hfenced, hblk, rfl⟩ := firstFence_eq hfence
  have hdrop := ((h.waited env).clearFenced _).1 s₁ (fenceWaitInternal_of_clears hclears hwait)
  have hcookie : blk.fence = cookieAt (first + stamp k) := by
    have hcookie := h.fence k (by rw [hfenced]; exact List.mem_cons_self ..)
    rw [hblk] at hcookie
    exact Option.some.inj hcookie
  have hshorter : s₁.fenced.length ≤ ks.length := by
    rw [hdrop, waited_fenced, hfenced, List.dropWhile_cons_of_pos (by rw [hcookie, fenceLte, if_pos rfl])]
    exact (List.dropWhile_sublist _).length_le
  rw [hfenced, List.length_cons]
  omega

/-- A round that does not let the loop go on ends it. -/
theorem waitLoop_last (hnext : Tries b bo next) (h : Ordered first stamp s) (hhangs : ¬ env.Hangs s)
    (hlast : ¬ ∃ s', env.Round next s s') (n : Nat) : waitLoop env next (n + 1) s ≠ .error .endless := by
  rw [waitLoop]
  split
  · rintro ⟨⟩
  · case h_2 k ks hfenced =>
      obtain ⟨blk, hblk⟩ := h.links.known k (List.mem_append_left _ (List.mem_append_right _
        (by rw [hfenced]; exact List.mem_cons_self ..)))
      have hfence : s.firstFence = some blk.fence := by
        rw [State.firstFence, hfenced]
        show (s.block k).map Block.fence = _
        rw [hblk]
        rfl
      rw [State.getBlock, hblk]
      show (fenceWaitInternal env blk.fence s >>= _) ≠ _
      cases hwait : fenceWaitInternal env blk.fence s with
      | error e =>
          rintro ⟨⟩
          exact fenceWaitInternal_ends h hfence hhangs hwait
      | ok s₁ =>
          show (next s₁ >>= _) ≠ _
          cases htry : next s₁ with
          | error e =>
              rintro ⟨⟩
              exact hnext.ends s₁ htry
          | ok r =>
              obtain ⟨done, s₂⟩ := r
              cases done with
              | true => rintro ⟨⟩
              | false => exact absurd ⟨s₂, blk.fence, s₁, hfence, hwait, htry⟩ hlast

theorem Env.Comes.keeps (hnext : Tries b bo next) (hnone : bo.block = none) (h : Ordered first stamp s)
    (hb : s.bo b = some bo) (hcomes : env.Comes next s s') :
    Ordered first stamp s' ∧ s'.bo b = some bo ∧ s'.fenced.length ≤ s.fenced.length := by
  induction hcomes with
  | refl => exact ⟨h, hb, Nat.le_refl _⟩
  | tail _ hround ih =>
      obtain ⟨h₁, hb₁, hle₁⟩ := ih
      obtain ⟨h₂, hb₂, hle₂, _⟩ := hround.shorter hnext hnone h₁ hb₁
      exact ⟨h₂, hb₂, hle₂.trans hle₁⟩

/-- Every round takes the first block off the list. -/
theorem waitLoop_calm (hnext : Tries b bo next) (hnone : bo.block = none) {n : Nat} (h : Ordered first stamp s)
    (hcalm : env.Calm next s) (hb : s.bo b = some bo) (hn : s.fenced.length < n) :
    waitLoop env next n s ≠ .error .endless := by
  induction n generalizing s with
  | zero => exact absurd hn (Nat.not_lt_zero _)
  | succ n ih =>
      obtain ⟨hhangs, hahead⟩ := hcalm s .refl
      by_cases hlast : ∃ s', env.Round next s s'
      · obtain ⟨s', hround⟩ := hlast
        obtain ⟨h', hb', _, hlt⟩ := hround.shorter hnext hnone h hb
        rw [waitLoop_round hround]
        have hlt := hlt hahead
        exact ih h' (fun s'' hcomes => hcalm s'' (.head hround hcomes)) hb' (by omega)
      · exact waitLoop_last hnext h hhangs hlast n

/-- Whether the loop ends is the same at every point that it comes to. -/
theorem ends_comes_iff (hcomes : env.Comes next s s') :
    (∃ n, waitLoop env next n s ≠ .error .endless) ↔ ∃ n, waitLoop env next n s' ≠ .error .endless := by
  induction hcomes using Relation.ReflTransGen.head_induction_on with
  | refl => exact Iff.rfl
  | head hround _ ih =>
      rw [← ih]
      constructor
      · rintro ⟨n, hn⟩
        cases n with
        | zero => exact absurd rfl hn
        | succ n => exact ⟨n, by rwa [waitLoop_round hround] at hn⟩
      · rintro ⟨n, hn⟩
        exact ⟨n + 1, by rwa [waitLoop_round hround]⟩

theorem waitLoop_hangs (h : env.Hangs s) (n : Nat) : waitLoop env next n s = .error .endless := by
  cases n with
  | zero => rfl
  | succ n =>
      obtain ⟨fence, hfence, hcallback, hwaiting⟩ := h
      obtain ⟨k, ks, blk, hfenced, hblk, rfl⟩ := firstFence_eq hfence
      have hwait : fenceWaitInternal env blk.fence s = .error .endless := by
        unfold fenceWaitInternal
        rw [if_neg (by rw [hcallback]; exact Bool.false_ne_true)]
        dsimp only
        rw [hwaiting]
      rw [waitLoop, hfenced]
      dsimp only
      rw [State.getBlock, hblk]
      show (fenceWaitInternal env blk.fence s >>= _) = _
      rw [hwait]
      rfl

theorem waitLoop_stuck (h : env.Stuck next s) (n : Nat) : waitLoop env next n s = .error .endless := by
  induction n generalizing s with
  | zero => rfl
  | succ n ih =>
      obtain ⟨_, s', hround⟩ := h s .refl
      rw [waitLoop_round hround]
      exact ih fun s'' hcomes => h s'' (.head hround hcomes)

/-- The loop ends exactly when its waits end and it is not in case C for ever. -/
theorem waitLoop_ends_iff (hnext : Tries b bo next) (hnone : bo.block = none) (h : Ordered first stamp s)
    (hb : s.bo b = some bo) : (∃ n, waitLoop env next n s ≠ .error .endless) ↔ env.Answers next s := by
  constructor
  · intro hends s' hcomes
    obtain ⟨n, hn⟩ := (ends_comes_iff hcomes).mp hends
    exact ⟨fun hhangs => hn (waitLoop_hangs hhangs n), fun hstuck => hn (waitLoop_stuck hstuck n)⟩
  · -- by the length of the list: the first wait that is not in case C makes it shorter
    intro hanswers
    induction hlen : s.fenced.length using Nat.strongRecOn generalizing s with
    | ind len ih =>
        obtain ⟨s', hcomes, hnot⟩ : ∃ s', env.Comes next s s' ∧ ¬ (env.Ahead s' ∧ ∃ s'', env.Round next s' s'') := by
          have hstuck := (hanswers s .refl).2
          unfold Env.Stuck at hstuck
          push Not at hstuck
          obtain ⟨s', hcomes, hgoes⟩ := hstuck
          exact ⟨s', hcomes, fun hr => hr.2.elim fun s'' => hgoes hr.1 s''⟩
        refine (ends_comes_iff hcomes).mpr ?_
        obtain ⟨h', hb', hle⟩ := hcomes.keeps hnext hnone h hb
        by_cases hround : ∃ s'', env.Round next s' s''
        · obtain ⟨s'', hround⟩ := hround
          obtain ⟨h'', hb'', _, hlt⟩ := hround.shorter hnext hnone h' hb'
          have hlt := hlt fun hahead => hnot ⟨hahead, s'', hround⟩
          obtain ⟨n, hn⟩ := ih s''.fenced.length (by omega) h'' hb''
            (fun t ht => hanswers t (hcomes.trans (.head hround ht))) rfl
          exact ⟨n + 1, by rwa [waitLoop_round hround]⟩
        · exact ⟨1, waitLoop_last hnext h' (hanswers s' hcomes).1 hround 0⟩

/-- A wait that returns leaves no block with a fence up to the one that was waited for exactly when there is none before,
    or it does not end in case C and the fences are close enough to be compared.  The loops that wait for the first
    block end exactly when the waits they make end and are not in case C for ever; where none is in case C, each
    round takes a block off the list. -/
theorem fence_wait_progress {t : Timeline} (h : Runs Timeline.Init (Timeline.Step first) t) :
    (∀ (env : Env) s n s', Inside t.state s → fenceWaitInternal env (cookieAt (first + n)) s = .ok s' →
      ((∀ k ∈ s'.fenced, ¬ t.stamp k ≤ n) ↔ (∀ k ∈ s.fenced, ¬ t.stamp k ≤ n) ∨
        ((env.fenceCallback = true ∨ ¬ CaseC (cookieAt (first + n)).toNat (env.rounds s.waits) 0) ∧
          ∀ k ∈ s.fenced, t.stamp k ≤ n → ((n : Int) - t.stamp k) % 0x7fffffff < 2 ^ 24))) ∧
    (∀ (env : Env) s b bo, Inside t.state s → s.bo b = some bo → bo.block = none →
      ∀ next, (next = allocBlock b ∨ next = fun s => .ok (false, s)) →
        ((∃ fuel, waitLoop env next fuel s ≠ .error .endless) ↔ env.Answers next s) ∧
        (env.Calm next s → ∀ fuel, s.fenced.length < fuel → waitLoop env next fuel s ≠ .error .endless)) := by
  have hok := ordered_of_runs h
  refine ⟨fun env s n s' hin hrun => ?_, fun env s b bo hin hb hnone next hnext => ?_⟩
  · have hseq : CInt.int32 (cookieAt (first + n)).toNat = (cookieAt (first + n)).toNat := by
      refine CInt.int32_of_range ?_ ?_
      · omega
      · rw [cookieAt_toNat]
        omega
    have hwait := (hok.onward hin.1 hin.2).wait_iff hrun
    rw [Env.Clears, hseq] at hwait
    simp only [fenceLte_cookieAt] at hwait
    simp only [not_le]
    rw [hwait]
    have hsub : ∀ k, ((first + n : Nat) : Int) - (first + t.stamp k : Nat) = (n : Int) - t.stamp k := fun k => by omega
    simp only [hsub]
  · have htries : Tries b bo next := by
      rcases hnext with rfl | rfl
      · exact allocBlock_tries hnone
      · exact never_tries
    have hs := hok.onward hin.1 hin.2
    exact ⟨waitLoop_ends_iff htries hnone hs hb, fun hcalm fuel hfuel => waitLoop_calm htries hnone hs hcalm hb hfuel⟩

/-- The hardware is one fence further at each wait, and its counter starts again before the third. -/
def wrappingEnv : Env := { plainEnv with
  fenceCallback := false
  rounds := fun w =>
    match w with
    | 0 => [⟨0x7ffffffd, -EBUSY, 0x7ffffffe, 0x7ffffffe, 0x7ffffffe⟩, ⟨0x7ffffffe, 0, 0x7ffffffe, 0x7ffffffe, 0x7ffffffe⟩]
    | 1 => [⟨0x7ffffffe, 0, 0x7fffffff, 0x7fffffff, 0x7fffffff⟩]
    | _ => [⟨1, 0, 1, 1, 1⟩] }

/-- The waits for the three fences around the start of the cookies are none of them in case C, although the last
    answer would be for the first fence. -/
theorem fence_wait_progress_wrapping : ∃ t s', Runs Timeline.Init (Timeline.Step 0x7ffffffd) t ∧
    t.state.fenced = [0, 1, 2] ∧ fenceWaitInternal wrappingEnv 0x7ffffffe t.state = .ok s' ∧ (∀ k ∈ s'.fenced, ¬ t.stamp k ≤ 0) ∧
    wrappingEnv.Answers (allocBlock 3) t.state ∧ waitLoop wrappingEnv (fun s => .ok (false, s)) 4 t.state ≠ .error .endless := by
  have hplay : (Timeline.playAll 0x7ffffffd (threeOps ++ [.alloc 4 4])).map (fun t =>
      (t.state.fenced, [0, 1, 2].map t.stamp, (t.state.bo 3).map (fun bo => bo.block.isNone),
        t.state.waits, [(fenceWaitInternal wrappingEnv 0x7ffffffe t.state).toOption.isSome,
          wrappingEnv.calm (allocBlock 3) 4 t.state, wrappingEnv.calm (fun s => .ok (false, s)) 4 t.state])) =
      some ([0, 1, 2], [0, 1, 2], some true, 0, [true, true, true]) := by
    decide +kernel
  obtain ⟨t, ht, hfields⟩ := Option.map_eq_some_iff.mp hplay
  simp only [Prod.mk.injEq, Option.map_eq_some_iff, Option.isNone_iff_eq_none, List.map_cons, List.map_nil,
    List.cons.injEq, and_true] at hfields
  obtain ⟨hfenced, ⟨h₀, h₁, h₂⟩, ⟨bo, hb, hnone⟩, hwaits, hwait, hcalm, hnever⟩ := hfields
  obtain ⟨s', hs'⟩ := Option.isSome_iff_exists.mp hwait
  have hruns := Timeline.playAll_runs ht
  have hin : Inside t.state t.state := ⟨(ordered_of_runs hruns).links, .refl _⟩
  obtain ⟨hretires, hloops⟩ := fence_wait_progress hruns
  obtain ⟨hiff, hends⟩ := hloops wrappingEnv t.state 3 bo hin hb hnone (allocBlock 3) (.inl rfl)
  obtain ⟨_, hends'⟩ := hloops wrappingEnv t.state 3 bo hin hb hnone (fun s => .ok (false, s)) (.inr rfl)
  have hlength : t.state.fenced.length < 4 := by
    rw [hfenced]
    decide
  refine ⟨t, s', hruns, hfenced, toOption_eq_some hs', ?_, hiff.mp ⟨4, hends (calm_of_check hcalm) 4 hlength⟩,
    hends' (calm_of_check hnever) 4 hlength⟩
  refine (hretires wrappingEnv t.state 0 s' hin (toOption_eq_some hs')).mpr (.inr ⟨.inr ?_, ?_⟩)
  · rw [← waitRounds_eq_returned_iff, hwaits]
    decide
  · rw [hfenced]
    simp only [List.forall_mem_cons, List.not_mem_nil, false_implies, implies_true, h₀, h₁, h₂]
    decide

/-- The counter of the hardware has started again and stays at 1. -/
def wrappedEnv : Env := { plainEnv with
  fenceCallback := false
  rounds := fun _ => [⟨1, 0, 1, 1, 1⟩] }

/-- Where every wait ends in case C, the loop goes on for ever. -/
theorem waitLoop_endless (hcallback : env.fenceCallback = false) {ks : List BlockId} (hfenced : s.fenced = k :: ks)
    (hblk : s.block k = some blk) (hC : ∀ w, CaseC (CInt.int32 blk.fence.toNat) (env.rounds w) 0) (fuel : Nat) :
    waitLoop env (fun s => .ok (false, s)) fuel s = .error .endless := by
  induction fuel generalizing s with
  | zero => rfl
  | succ fuel ih =>
      have hnot : ¬ env.Clears blk.fence s := by
        rintro (h | h)
        · cases hcallback.symm.trans h
        · exact h (hC s.waits)
      have hnext := ih (s := { s with waits := s.waits + 1 }) hfenced hblk
      unfold waitLoop
      rw [hfenced]
      dsimp only
      rw [State.getBlock, hblk]
      show (fenceWaitInternal env blk.fence s >>= _) = _
      rw [fenceWaitInternal_of_not_clears hnot]
      exact hnext

/-- The fence has passed, for the counter has started again, but its block stays and the loop does not end. -/
theorem fence_wait_progress_wrapped : ∃ t s', Runs Timeline.Init (Timeline.Step 0x7ffffff0) t ∧
    fenceWaitInternal wrappedEnv 0x7ffffff1 t.state = .ok s' ∧ s'.fenced = [0] ∧ t.stamp 0 = 0 ∧ cookieAt 0x7ffffff0 = 0x7ffffff1 ∧
    ∀ fuel, waitLoop wrappedEnv (fun s => .ok (false, s)) fuel t.state = .error .endless := by
  have hplay : (Timeline.playAll 0x7ffffff0 [.alloc 4 4, .exec 0 0 []]).map (fun t =>
      (t.state.fenced, t.stamp 0, (t.state.block 0).map Block.fence)) = some ([0], 0, some 0x7ffffff1) := by
    decide +kernel
  obtain ⟨t, ht, hfields⟩ := Option.map_eq_some_iff.mp hplay
  simp only [Prod.mk.injEq, Option.map_eq_some_iff] at hfields
  obtain ⟨hfenced, hstamp, blk, hblk, hfence⟩ := hfields
  have hC : ∀ w, CaseC (CInt.int32 (0x7ffffff1 : UInt32).toNat) (wrappedEnv.rounds w) 0 :=
    fun w => (waitRounds_eq_returned_iff _ [⟨1, 0, 1, 1, 1⟩] _).mp (by decide)
  have hnot : ¬ wrappedEnv.Clears 0x7ffffff1 t.state := by
    rintro (h | h)
    · cases h
    · exact h (hC _)
  refine ⟨t, _, Timeline.playAll_runs ht, fenceWaitInternal_of_not_clears hnot, hfenced, hstamp, by decide, fun fuel => ?_⟩
  exact waitLoop_endless rfl hfenced hblk (by rw [hfence]; exact hC) fuel

end LibDrm.Fake
