/-
# `LibDrm.Fake.Fences` — fences pass in the order of their emission

The hardware counts fences from 1 to 0x7fffffff and starts again, so a cookie does
not say by itself how long ago it was emitted.  `FENCE_LTE` compares two cookies on
the cycle, and agrees with the order of emission as long as fewer than 2^24 fences
lie between them:

    fenceLte (cookieAt m) (cookieAt n)  ↔  (n - m) mod 0x7fffffff < 2^24

The list `fenced` is in the order of emission, for blocks only come to its end, with
a fence that is newer than all others.  Therefore `clear_fenced` may stop at the first
block whose fence has not passed.
-/
import LibDrm.Fake.Quiet
import LibDrm.Fake.Ownership

namespace LibDrm.Fake

variable {s s' s₁ : State} {b : BoId} {bo : Bo} {k : BlockId} {blk : Block} {ks : List BlockId}

/-! ## Cookies -/

/-- The `n`-th cookie: they count 1, 2, … 0x7fffffff and then start again. -/
def cookieAt (n : Nat) : UInt32 := UInt32.ofNat (n % 0x7fffffff + 1)

theorem cookieAt_toNat (n : Nat) : (cookieAt n).toNat = n % 0x7fffffff + 1 := by
  rw [cookieAt, UInt32.toNat_ofNat', Nat.mod_eq_of_lt (by omega)]

theorem cookieAt_ne_zero (n : Nat) : cookieAt n ≠ 0 := by
  intro h
  have := congrArg UInt32.toNat h
  rw [cookieAt_toNat] at this
  cases this

/-- `FENCE_LTE` looks at how far the second cookie is ahead of the first, on the cycle. -/
theorem fenceLte_cookieAt (m n : Nat) :
    fenceLte (cookieAt m) (cookieAt n) = true ↔ ((n : Int) - m) % 0x7fffffff < 2 ^ 24 := by
  have hm := cookieAt_toNat m
  have hn := cookieAt_toNat n
  simp only [fenceLte, MAXFENCE, ← UInt32.toNat_inj, UInt32.lt_iff_toNat_lt, UInt32.toNat_sub, UInt32.toNat_add,
    UInt32.toNat_ofNat, gt_iff_lt]
  rw [hm, hn]
  have hcycle : ((n : Int) - m) % 0x7fffffff = (((n % 0x7fffffff : Nat) : Int) - (m % 0x7fffffff : Nat)) % 0x7fffffff := by
    omega
  rw [hcycle]
  have hx : m % 0x7fffffff < 0x7fffffff := Nat.mod_lt _ (by decide)
  have hy : n % 0x7fffffff < 0x7fffffff := Nat.mod_lt _ (by decide)
  generalize m % 0x7fffffff = x at hx ⊢
  generalize n % 0x7fffffff = y at hy ⊢
  -- equal, no wrap between them, a wrap between them, too far apart
  split
  · simp only [true_iff]
    omega
  · split
    · simp only [true_iff]
      omega
    · split
      · simp only [true_iff]
        omega
      · simp only [Bool.false_eq_true, false_iff]
        omega

/-- Two emissions are less than 2^24 apart. -/
def Near (m n : Nat) : Prop := m < n + 2 ^ 24 ∧ n < m + 2 ^ 24

theorem fenceLte_iff_of_near {m n : Nat} (h : Near m n) : fenceLte (cookieAt m) (cookieAt n) = true ↔ m ≤ n := by
  rw [fenceLte_cookieAt]
  obtain ⟨h₁, h₂⟩ := h
  omega

/-! ## Clearing -/

theorem Inv.fresh {T X : BoId → Prop} (hs : Inv T X s) : Fresh s := by
  intro k hk
  obtain ⟨blk, hblk⟩ := hs.known k (List.mem_append_left _ (List.mem_append_right _ hk))
  by_contra hge
  cases hblk.symm.trans (hs.freshBlock k (Nat.le_of_not_lt hge))

theorem releaseBlock_fails (hs : MemOk s) (hblk : s.block k = some blk) {e : Fault} (h : releaseBlock k blk s = .error e) :
    e = .heap .overflow := by
  obtain ⟨lo, hi, bs, hinv, hspaced, _, hout⟩ := hs.heap
  have hsafe := (Mm.mmFreeMem_spec hinv hspaced ((hout _).mp (hs.held k blk hblk))).2
  unfold releaseBlock at h
  cases hfree : Mm.mmFreeMem (some blk.mem) s.heap.mem with
  | error e' =>
      rw [hfree] at h
      cases hsafe e' hfree
      cases h
      rfl
  | ok r =>
      rw [hfree] at h
      cases h

/-- The first block of the list goes if its fence has passed. -/
theorem clearBlock_first (hs : Links s) (hfenced : s.fenced = k :: ks) (hblk : s.block k = some blk) :
    Within (· = .heap .overflow) (clearBlock k s) fun r => r.1 = fenceTest blk.fence s ∧ (r.1 = false → r.2 = s) ∧
      (r.1 = true → r.2.fenced = ks ∧ r.2.lastFence = s.lastFence) := by
  have hk : k ∈ s.fenced := by
    rw [hfenced]
    exact List.mem_cons_self ..
  have htail : s.fenced.filter (· ≠ k) = ks := by
    have hnodup : s.fenced.Nodup := (List.Nodup.of_append_left hs.nodup).of_append_right
    rw [hfenced] at hnodup ⊢
    have hne : ∀ j ∈ ks, j ≠ k := fun j hj heq => (List.nodup_cons.mp hnodup).1 (heq ▸ hj)
    rw [List.filter_cons_of_neg (by simp), List.filter_eq_self.mpr fun j hj => decide_eq_true (hne j hj)]
  have hflag : blk.fenced = true := (hs.listed k blk hblk).2.2.mpr hk
  have hget : s.getBlock k = .ok blk := by rw [State.getBlock, hblk]
  have hassert : assert blk.fenced = .ok () := by rw [hflag, assert, if_pos rfl]
  unfold clearBlock
  refine Within.bind (P := (blk = ·)) (hget ▸ .ok rfl) ?_
  rintro _ rfl
  refine Within.bind (P := fun _ => True) (hassert ▸ .ok trivial) fun _ _ => ?_
  split
  · case isTrue hpassed =>
      cases hbo : blk.bo with
      | none =>
          refine Within.bind (P := fun s' => s'.fenced = ks ∧ s'.lastFence = s.lastFence)
            ⟨?_, fun e he => releaseBlock_fails hs.toMemOk hblk he⟩ fun s' h' => .pure ⟨hpassed.symm, nofun, fun _ => h'⟩
          unfold releaseBlock
          exact Ensures.bind_any fun r => .pure ⟨htail, rfl⟩
      | some b => exact .pure ⟨hpassed.symm, nofun, fun _ => ⟨htail, rfl⟩⟩
  · case isFalse hwaits => exact .pure ⟨(eq_false_of_ne_true hwaits).symm, fun _ => rfl, nofun⟩

/-- The loop stops at the first block that stays. -/
theorem clearBlocks_dropWhile (hs : Links s) (hfenced : s.fenced = ks) {p : BlockId → Bool}
    (hp : ∀ k ∈ ks, ∀ blk, s.block k = some blk → fenceTest blk.fence s = p k) :
    Within (· = .heap .overflow) (clearBlocks ks s) fun s' => s'.fenced = ks.dropWhile p := by
  induction ks generalizing s with
  | nil => exact .ok hfenced
  | cons k ks ih =>
      have hk : k ∈ s.fenced := by
        rw [hfenced]
        exact List.mem_cons_self ..
      obtain ⟨blk, hblk⟩ := hs.known k (List.mem_append_left _ (List.mem_append_right _ hk))
      have hpk := hp k (List.mem_cons_self ..) blk hblk
      have hclear := clearBlock_first hs hfenced hblk
      have hkeeps := clearBlock_ensures hs hk
      have hquiet := Ensures.quiet (clearBlock_tidies k s)
      refine Within.bind (P := fun r => (Links r.2 ∧ Quiet s r.2) ∧ _)
        ⟨fun r hr => ⟨⟨(hkeeps r hr).1, hquiet r hr⟩, hclear.1 r hr⟩, hclear.2⟩ ?_
      rintro ⟨passed, s₁⟩ ⟨⟨hs₁, hq⟩, hpassed, hstays, hgoes⟩
      replace hpassed : passed = p k := hpassed.trans hpk
      cases passed with
      | false =>
          refine .pure ?_
          cases hstays rfl
          rw [hfenced, List.dropWhile_cons_of_neg (by rw [← hpassed]; exact Bool.false_ne_true)]
      | true =>
          obtain ⟨htail, hlast⟩ := hgoes rfl
          rw [List.dropWhile_cons_of_pos hpassed.symm]
          refine ih hs₁ htail fun j hj blkj hblkj => ?_
          -- the fences of the other blocks are what they were
          have hfence := (hq.moves hs.fresh).fence j (by rw [htail]; exact hj)
          rw [hblkj] at hfence
          obtain ⟨blk₀, hblk₀, heq⟩ := Option.map_eq_some_iff.mp hfence.symm
          have := hp j (List.mem_cons_of_mem _ hj) blk₀ hblk₀
          rw [← this, fenceTest, fenceTest, hlast, heq]

/-- Where all that follow a failing element fail too, dropping the first ones is filtering. -/
theorem dropWhile_eq_filter {α : Type} {l : List α} {p : α → Bool} (h : l.Pairwise fun j k => p j = false → p k = false) :
    l.dropWhile p = l.filter fun k => !p k := by
  induction l with
  | nil => rfl
  | cons k l ih =>
      obtain ⟨hlater, h⟩ := List.pairwise_cons.mp h
      cases hk : p k with
      | true =>
          rw [List.dropWhile_cons_of_pos hk, List.filter_cons_of_neg (by rw [hk]; decide)]
          exact ih h
      | false =>
          have hall : ∀ j ∈ k :: l, (!p j) = true := by
            intro j hj
            rcases List.mem_cons.mp hj with rfl | hj
            · rw [hk]
              rfl
            · rw [hlater j hj hk]
              rfl
          rw [List.dropWhile_cons_of_neg (by rw [hk]; exact Bool.false_ne_true), List.filter_eq_self.mpr hall]

/-! ## The order of the list -/

/-- What `fence_validated` does: the blocks on the hardware follow those on `fenced`, with the new fence. -/
theorem fenceValidated_appends (hs : Links s) (env : Env) : Ensures (fenceValidated env s) fun s' =>
    s'.fenced = s.fenced ++ s.onHardware ∧ s'.emitted = s.emitted + 1 ∧
      ∀ k, (s'.block k).map Block.fence = if k ∈ s.onHardware then some (env.cookie s.emitted) else (s.block k).map Block.fence := by
  unfold fenceValidated fenceBlocks
  have hnodup : s.onHardware.Nodup := (List.Nodup.of_append_left hs.nodup).of_append_left
  have hdisjoint : ∀ k ∈ s.onHardware, k ∉ s.fenced := fun k hk => (hs.disjoint.1 hk).1
  have hloop := Ensures.foldlM_done (f := fenceBlock (env.cookie s.emitted)) (l := s.onHardware)
    (I := fun done s' => s'.fenced = s.fenced ++ done ∧ s'.emitted = s.emitted + 1 ∧
      ∀ k, (s'.block k).map Block.fence = if k ∈ done then some (env.cookie s.emitted) else (s.block k).map Block.fence)
    (s := { s with emitted := s.emitted + 1 }) ?_ ?_
  · exact hloop.bind fun s' hs' => Ensures.bind_any fun _ => .pure hs'
  · exact ⟨(List.append_nil _).symm, rfl, fun k => (if_neg List.not_mem_nil).symm⟩
  · intro done k rest s' hsplit hs'
    obtain ⟨hfenced, hemitted, hblock⟩ := hs'
    rw [hsplit] at hnodup hdisjoint
    have hk : k ∉ s.fenced := hdisjoint k (by simp)
    have hkdone : k ∉ done := fun h => (List.nodup_append.mp hnodup).2.2 k h k (List.mem_cons_self ..) rfl
    unfold fenceBlock
    refine (getBlock_ensures k s').bind fun blk hblk => .pure ⟨?_, hemitted, fun j => ?_⟩
    · show s'.fenced.filter (· ≠ k) ++ [k] = _
      have hkeep : ∀ j ∈ s'.fenced, decide (j ≠ k) = true := by
        intro j hj
        rw [hfenced] at hj
        refine decide_eq_true fun heq => ?_
        subst heq
        exact (List.mem_append.mp hj).elim hk hkdone
      rw [List.filter_eq_self.mpr hkeep, hfenced, List.append_assoc]
    · show (Function.update s'.block k _ j).map Block.fence = _
      by_cases hjk : j = k
      · rw [hjk, Function.update_self, if_pos (List.mem_append_right _ (List.mem_singleton_self k))]
        rfl
      · rw [Function.update_of_ne hjk, hblock j]
        refine if_congr ?_ rfl rfl
        rw [List.mem_append, List.mem_singleton]
        exact ⟨.inl, fun h => h.resolve_right hjk⟩

/-- The driver counts its fences; the first of the run is the `first`-th. -/
def Env.Counts (first : Nat) (env : Env) : Prop := ∀ n, env.cookie n = cookieAt (first + n)

/-- Every fenced block has the fence of its stamp, and they stand in the order of the emissions. -/
structure Ordered (first : Nat) (stamp : BlockId → Nat) (s : State) : Prop where
  links : Links s
  fence : ∀ k ∈ s.fenced, (s.block k).map Block.fence = some (cookieAt (first + stamp k))
  past : ∀ k ∈ s.fenced, stamp k < s.emitted
  order : s.fenced.Pairwise fun j k => stamp j ≤ stamp k

variable {first : Nat} {stamp : BlockId → Nat}

theorem Ordered.onward (h : Ordered first stamp s) (hs' : Links s') (hon : Onward s s') : Ordered first stamp s' :=
  ⟨hs', fun k hk => (hon.fence k hk).trans (h.fence k (hon.fenced.subset hk)),
    fun k hk => Nat.lt_of_lt_of_le (h.past k (hon.fenced.subset hk)) hon.emitted, h.order.sublist hon.fenced⟩

/-- A call that does not fence anything. -/
theorem Ordered.moves {α : Type} {x : Except Fault α} {q : α → State} (h : Ordered first stamp s)
    (hlinks : Ensures x fun a => Links (q a)) (hmoves : Ensures x fun a => Moves s (q a)) :
    Ensures x fun a => Ordered first stamp (q a) :=
  fun a ha => h.onward (hlinks a ha) (hmoves a ha h.links.fresh)

theorem gpuWrite_moves (s : State) (w : GpuWrite) : Ensures (gpuWrite s w) fun s' =>
    Moves s s' ∧ s'.onHardware = s.onHardware ∧ s'.emitted = s.emitted := by
  unfold gpuWrite
  exact Ensures.bind_any fun bo => .pure ⟨moves_of_eq rfl rfl (Nat.le_refl _) rfl, rfl, rfl⟩

/-- The blocks of the batch get the number of its fence. -/
theorem Ordered.fenceValidated (h : Ordered first stamp s) {env : Env} (henv : env.Counts first) :
    Ensures (fenceValidated env s) (Ordered first fun k => if k ∈ s.onHardware then s.emitted else stamp k) := by
  intro s' hrun
  obtain ⟨hlinks, _, _⟩ := fenceValidated_ensures h.links env s' hrun
  obtain ⟨hfenced, hemitted, hblock⟩ := fenceValidated_appends h.links env s' hrun
  have hold : ∀ k ∈ s.fenced, (if k ∈ s.onHardware then s.emitted else stamp k) = stamp k :=
    fun k hk => if_neg fun hhw => (h.links.disjoint.1 hhw).1 hk
  refine ⟨hlinks, fun k hk => ?_, fun k hk => ?_, ?_⟩
  · rw [hblock k]
    split
    · rw [henv]
    · case isFalse hhw =>
        rw [hfenced] at hk
        exact h.fence k ((List.mem_append.mp hk).resolve_right hhw)
  · rw [hemitted]
    split
    · exact Nat.lt_succ_self _
    · case isFalse hhw =>
        rw [hfenced] at hk
        exact Nat.lt_succ_of_lt (h.past k ((List.mem_append.mp hk).resolve_right hhw))
  · rw [hfenced]
    refine List.pairwise_append.mpr ⟨?_, ?_, fun j hj k hk => ?_⟩
    · refine h.order.imp_of_mem fun {j k} hj hk hjk => ?_
      rw [hold j hj, hold k hk]
      exact hjk
    · refine List.pairwise_iff_forall_sublist.mpr fun {j k} hjk => ?_
      have hj : j ∈ s.onHardware := hjk.subset (List.mem_cons_self ..)
      have hk : k ∈ s.onHardware := hjk.subset (List.mem_cons_of_mem _ (List.mem_cons_self ..))
      rw [if_pos hj, if_pos hk]
    · rw [hold j hj, if_pos hk]
      exact Nat.le_of_lt (h.past j hj)

/-! ## Runs -/

/-- The manager, and for every fenced block the number of its fence among those that were emitted. -/
structure Timeline where
  state : State
  stamp : BlockId → Nat

/-- The blocks that an execution finds on the hardware get the fence that is emitted then. -/
def Op.stamps (env : Env) (op : Op) (s : State) (stamp : BlockId → Nat) : BlockId → Nat :=
  match op with
  | .exec b 0 _ =>
      match prepareExec env b s with
      | .ok s₁ => fun k => if k ∈ s₁.onHardware then s₁.emitted else stamp k
      | .error _ => stamp
  | _ => stamp

def Timeline.Init (t : Timeline) : Prop := t.state.Init

def Timeline.Step (first : Nat) (t t' : Timeline) : Prop :=
  ∃ (env : Env) (op : Op), env.Counts first ∧ op.run env t.state = .ok t'.state ∧ t'.stamp = op.stamps env t.state t.stamp

theorem boExec_ordered (h : Ordered first stamp s) {env : Env} (henv : env.Counts first) (b : BoId) (result : Int)
    (writes : List GpuWrite) : Ensures (boExec env b result writes s) fun r =>
      Ordered first ((Op.exec b result writes).stamps env s stamp) r.2 := by
  have hprepare : Ensures (prepareExec env b s) fun s₁ => prepareExec env b s = .ok s₁ ∧ Ordered first stamp s₁ :=
    fun s₁ hs₁ => ⟨hs₁, h.moves (q := id) (prepareExec_links h.links env b) (prepareExec_moves env b s) s₁ hs₁⟩
  unfold boExec
  refine hprepare.bind fun s₁ hs₁ => ?_
  obtain ⟨hrun, h₁⟩ := hs₁
  split
  · case isTrue hresult =>
      have hstamp : (Op.exec b result writes).stamps env s stamp = stamp := by
        unfold Op.stamps
        split
        · case h_1 heq =>
            cases heq
            exact absurd rfl hresult
        · rfl
      rw [hstamp]
      exact .pure h₁
  · case isFalse hresult =>
      obtain rfl : result = 0 := not_not.mp hresult
      have hstamp : (Op.exec b 0 writes).stamps env s stamp = fun k => if k ∈ s₁.onHardware then s₁.emitted else stamp k := by
        simp only [Op.stamps, hrun]
      rw [hstamp]
      have hwrites : Ensures (writes.foldlM gpuWrite s₁) fun s₂ =>
          Ordered first stamp s₂ ∧ s₂.onHardware = s₁.onHardware ∧ s₂.emitted = s₁.emitted := by
        refine Ensures.foldlM ⟨h₁, rfl, rfl⟩ fun s₂ w hs₂ => ?_
        intro s₃ hs₃
        obtain ⟨hmoves, hhw, hemitted⟩ := gpuWrite_moves s₂ w s₃ hs₃
        refine ⟨hs₂.1.onward (gpuWrite_links hs₂.1.links w s₃ hs₃) (hmoves hs₂.1.links.fresh), ?_, ?_⟩
        · rw [hhw, hs₂.2.1]
        · rw [hemitted, hs₂.2.2]
      refine hwrites.bind fun s₂ hs₂ => ?_
      obtain ⟨h₂, hhw, hemitted⟩ := hs₂
      refine (h₂.fenceValidated henv).bind fun s₃ h₃ => ?_
      rw [hhw, hemitted] at h₃
      have hsubmit : Ensures (postSubmit env.fuel b s₃) fun s₄ => Ordered first _ s₄ :=
        h₃.moves ((postSubmit_ensures env.fuel b s₃ h₃.links).mono fun s₄ h₄ => h₄.1)
          ((postSubmit_quiet env.fuel b s₃).mono fun s₄ h₄ => h₄.moves)
      exact hsubmit.bind fun s₄ h₄ => .pure h₄

/-- The step lemma. -/
theorem Op.run_ordered (h : Ordered first stamp s) {env : Env} (henv : env.Counts first) (op : Op) :
    Ensures (op.run env s) (Ordered first (op.stamps env s stamp)) := by
  have hs := h.links
  have hcall : ∀ {α : Type} {x : Except Fault (α × State)}, Ensures x (fun r => Links r.2) →
      Ensures x (fun r => Moves s r.2) → Ensures (do let r ← x; return r.2) (Ordered first stamp) :=
    fun hlinks hmoves => (h.moves hlinks hmoves).bind fun r hr => .pure hr
  cases op with
  | alloc size alignment =>
      refine hcall ((boAlloc_steady hs size alignment).mono fun r hr => hr.1) ?_
      unfold boAlloc
      exact Ensures.bind_any fun _ => Ensures.bind_any fun _ => .pure (moves_of_eq rfl rfl (Nat.le_refl _) rfl)
  | reference b =>
      exact h.moves ((modifyBo_steady hs b _ (by exact fun _ => ⟨rfl, rfl, rfl, rfl, rfl⟩)).mono fun s' hs' => hs'.1)
        ((modifyBo_quiet b _ (by exact fun _ => rfl)).mono fun s' hs' => hs'.moves)
  | unreference b =>
      exact h.moves ((unreference_ensures hs env.fuel b).mono fun s' hs' => hs'.1) (unreferenceLocked_moves env.fuel b s)
  | map b writeEnable =>
      exact hcall ((boMapLocked_steady hs env b writeEnable).mono fun r hr => hr.1)
        ((boMapLocked_quiet env b writeEnable s).mono fun r hr => hr.moves)
  | write b offset bytes =>
      exact h.moves ((writeVirtual_steady hs b offset bytes).mono fun s' hs' => hs'.1) (writeVirtual_moves b offset bytes s)
  | unmap b =>
      exact hcall ((boUnmapLocked_steady hs b).mono fun r hr => hr.1) ((boUnmapLocked_quiet b s).mono fun r hr => hr.moves)
  | subdata b offset data =>
      exact hcall ((boSubdata_steady hs env b offset data).mono fun r hr => hr.1) (boSubdata_moves env b offset data s)
  | emitReloc b offset target targetOffset readDomains writeDomain =>
      exact hcall ((emitReloc_steady hs b offset target targetOffset readDomains writeDomain).mono fun r hr => hr.1)
        (emitReloc_moves b offset target targetOffset readDomains writeDomain s)
  | exec b result writes => exact (boExec_ordered h henv b result writes).bind fun r hr => .pure hr
  | wait b =>
      exact h.moves ((waitRenderingLocked_ensures hs env b).mono fun s' hs' => hs'.1)
        ((waitRenderingLocked_tidies env b s).mono fun s' hs' => hs'.moves)
  | evictAll =>
      exact h.moves ((evictAll_ensures hs (fun _ _ h => absurd trivial h) env).mono fun s' hs' => hs'.1)
        ((evictAll_quiet env s).mono fun s' hs' => hs'.moves)

theorem ordered_of_runs {t : Timeline} (h : Runs Timeline.Init (Timeline.Step first) t) :
    Ordered first t.stamp t.state := by
  refine Runs.induct (I := fun t => Ordered first t.stamp t.state) (fun t ht => ?_) (fun t t' ht hstep => ?_) h
  · have hempty : t.state.fenced = [] := by
      have hlists := (State.Init.empty ht).2.2.1
      exact (List.append_eq_nil_iff.mp (List.append_eq_nil_iff.mp hlists).1).2
    refine ⟨State.Init.inv ht _, ?_, ?_, ?_⟩
    · exact fun k hk => absurd hk (by rw [hempty]; exact List.not_mem_nil)
    · exact fun k hk => absurd hk (by rw [hempty]; exact List.not_mem_nil)
    · rw [hempty]
      exact List.Pairwise.nil
  · obtain ⟨env, op, henv, hrun, hstamp⟩ := hstep
    rw [hstamp]
    exact op.run_ordered ht henv t'.state hrun

/-- `clear_fenced` retires blocks from the start of the list, as long as their fence is seen to be no later. -/
theorem Ordered.clearFenced (h : Ordered first stamp s) (cookie : UInt32) :
    Within (· = .heap .overflow) (clearFenced cookie s) fun s' =>
      s'.fenced = s.fenced.dropWhile fun k => fenceLte (cookieAt (first + stamp k)) cookie := by
  have hrel : Relisted s { s with lastFence := cookie } := ⟨rfl, rfl, rfl, rfl, rfl, rfl, fun _ => rfl⟩
  have hs : Links { s with lastFence := cookie } := (h.links.counters hrel rfl ⟨rfl, rfl, rfl⟩).1
  refine clearBlocks_dropWhile hs rfl fun k hk blk hblk => ?_
  have hfence := h.fence k hk
  replace hblk : s.block k = some blk := hblk
  rw [hblk] at hfence
  have hfence : blk.fence = cookieAt (first + stamp k) := Option.some.inj hfence
  show (decide (blk.fence = 0) || fenceLte blk.fence cookie) = _
  rw [hfence, decide_eq_false (cookieAt_ne_zero _), Bool.false_or]

/-- A point of a call at which no fence was given to a block yet. -/
def Inside (s s₁ : State) : Prop := Links s₁ ∧ Onward s s₁

/-- Cookies compare as they were emitted, the list `fenced` is in the order of the emissions, and at any point of a call
    `clear_fenced` retires exactly the blocks whose fence was emitted no later than its argument, also where the cookies
    have started again in between. -/
theorem fence_order {t : Timeline} (h : Runs Timeline.Init (Timeline.Step first) t) :
    (∀ env : Env, env.Counts first → ∀ m n, Near m n → (fenceLte (env.cookie m) (env.cookie n) = true ↔ m ≤ n)) ∧
    (∀ k ∈ t.state.fenced, t.stamp k < t.state.emitted ∧
      (t.state.block k).map Block.fence = some (cookieAt (first + t.stamp k))) ∧
    t.state.fenced.Pairwise (fun j k => t.stamp j ≤ t.stamp k) ∧
    (∀ s n, Inside t.state s → (∀ k ∈ s.fenced, Near (t.stamp k) n) →
      Within (· = .heap .overflow) (clearFenced (cookieAt (first + n)) s) fun s' =>
        s'.fenced = s.fenced.filter (fun k => n < t.stamp k) ∧
        ∀ k ∈ s.fenced, t.stamp k ≤ n → ∀ blk, s.block k = some blk → blk.bo ≠ none → k ∈ s'.lru) := by
  have hnear : ∀ {m n : Nat}, Near m n →
      (fenceLte (cookieAt (first + m)) (cookieAt (first + n)) = true ↔ m ≤ n) := by
    intro m n hmn
    rw [fenceLte_iff_of_near (by obtain ⟨h₁, h₂⟩ := hmn; exact ⟨by omega, by omega⟩)]
    omega
  have hok := ordered_of_runs h
  refine ⟨fun env henv m n hmn => ?_, fun k hk => ⟨hok.past k hk, hok.fence k hk⟩, hok.order, fun s n hin hwindow => ?_⟩
  · rw [henv, henv]
    exact hnear hmn
  · have hs := hok.onward hin.1 hin.2
    have hlte : ∀ k ∈ s.fenced, (!fenceLte (cookieAt (first + t.stamp k)) (cookieAt (first + n))) =
        decide (n < t.stamp k) := by
      intro k hk
      rw [Bool.eq_iff_iff, Bool.not_eq_true', ← Bool.not_eq_true, decide_eq_true_iff, hnear (hwindow k hk), not_le]
    have hstop : s.fenced.Pairwise fun j k => fenceLte (cookieAt (first + t.stamp j)) (cookieAt (first + n)) = false →
        fenceLte (cookieAt (first + t.stamp k)) (cookieAt (first + n)) = false := by
      refine hs.order.imp_of_mem fun {j k} hj hk hjk hfails => ?_
      rw [← Bool.not_eq_true, hnear (hwindow j hj)] at hfails
      rw [← Bool.not_eq_true, hnear (hwindow k hk)]
      omega
    have hclear := hs.clearFenced (cookieAt (first + n))
    refine ⟨fun s' hs' => ?_, hclear.2⟩
    have hfenced := hclear.1 s' hs'
    rw [dropWhile_eq_filter hstop, List.filter_congr hlte] at hfenced
    refine ⟨hfenced, fun k hk hpassed blk hblk hbo => ?_⟩
    -- the block is still there, and on neither of the other lists
    obtain ⟨hlinks, hcleared⟩ := clearFenced_ensures hin.1 _ s' hs'
    obtain ⟨blk', hblk', _⟩ := hcleared.block k blk hblk hbo
    have hmem := (hlinks.listed k blk' hblk').1
    have hnot : k ∉ s'.fenced := by
      rw [hfenced]
      exact fun hk' => absurd (of_decide_eq_true (List.mem_filter.mp hk').2) (Nat.not_lt.mpr hpassed)
    have hhw : k ∉ s'.onHardware := fun hk' => (hin.1.disjoint.1 (hcleared.hardware k hk')).1 hk
    simp only [State.lists, List.mem_append] at hmem
    exact hmem.resolve_left fun h => h.elim hhw hnot

/-- A driver that counts its fences and waits for them by its own callback. -/
def countEnv (first : Nat) : Env := { plainEnv with cookie := fun n => cookieAt (first + n) }

def Timeline.call (first : Nat) (t : Timeline) (op : Op) : Option Timeline :=
  (op.run (countEnv first) t.state).toOption.map fun s => ⟨s, op.stamps (countEnv first) t.state t.stamp⟩

/-- A manager of 64 bytes on which the calls were made. -/
def Timeline.playAll (first : Nat) (ops : List Op) : Option Timeline :=
  (initState 0 64 fun _ => 0xcc).bind fun s => ops.foldlM (Timeline.call first) ⟨s, fun _ => 0⟩

theorem Timeline.playAll_runs {ops : List Op} {t : Timeline} (h : Timeline.playAll first ops = some t) :
    Runs Timeline.Init (Timeline.Step first) t := by
  obtain ⟨s₀, hs₀, h⟩ := Option.bind_eq_some_iff.mp h
  refine Runs.foldlM (fun t op t' _ hcall => ?_) (.init ⟨_, _, _, hs₀⟩) h
  obtain ⟨s, hs, rfl⟩ := Option.map_eq_some_iff.mp hcall
  exact ⟨countEnv first, op, fun _ => rfl, toOption_eq_some hs, rfl⟩

/-- Three buffers that are executed one after the other. -/
def threeOps : List Op := [.alloc 4 4, .alloc 4 4, .alloc 4 4, .exec 0 0 [], .exec 1 0 [], .exec 2 0 []]

/-- The cookies start again before the third fence, and the second one is waited for. -/
theorem fence_order_wrap : ∃ t s', Runs Timeline.Init (Timeline.Step 0x7ffffffd) t ∧ t.state.fenced = [0, 1, 2] ∧
    clearFenced 0x7fffffff t.state = .ok s' ∧ s'.fenced = [2] := by
  have hplay : (Timeline.playAll 0x7ffffffd threeOps).map (fun t =>
      (t.state.fenced, t.stamp 0, t.stamp 1, t.stamp 2, (clearFenced 0x7fffffff t.state).toOption.isSome)) =
        some ([0, 1, 2], 0, 1, 2, true) := by
    decide +kernel
  obtain ⟨t, ht, hfields⟩ := Option.map_eq_some_iff.mp hplay
  simp only [Prod.mk.injEq] at hfields
  obtain ⟨hfenced, h₀, h₁, h₂, hclear⟩ := hfields
  obtain ⟨s', hs'⟩ := Option.isSome_iff_exists.mp hclear
  have hruns := Timeline.playAll_runs ht
  have hin : Inside t.state t.state := ⟨(ordered_of_runs hruns).links, .refl _⟩
  have hwindow : ∀ k ∈ t.state.fenced, Near (t.stamp k) 1 := by
    rw [hfenced]
    intro k hk
    simp only [List.mem_cons, List.not_mem_nil, or_false] at hk
    rcases hk with rfl | rfl | rfl
    · rw [h₀]
      exact ⟨by decide, by decide⟩
    · rw [h₁]
      exact ⟨by decide, by decide⟩
    · rw [h₂]
      exact ⟨by decide, by decide⟩
  have hretired := ((fence_order hruns).2.2.2 t.state 1 hin hwindow).1 s' (toOption_eq_some hs')
  refine ⟨t, s', hruns, hfenced, toOption_eq_some hs', ?_⟩
  rw [hretired.1, hfenced]
  simp [h₀, h₁, h₂]

end LibDrm.Fake
