/-
# `LibDrm.Radeon.Domains` — the domains of a buffer

In one stream a buffer is read or written, not both: that is what `write_reloc` says it
checks, and what the space accounting records, the read domains in the upper half of a
word or the write domain in the lower.  A buffer that was read may be written from then
on, if the domains overlap.

The other direction is the one that goes wrong.  A buffer that is written may be read
again, and stays in its write domain; the accounting does just that.  In the table the
read domain is set to 0, and then the new one is put there all the same.

    exclusive_of_runs   without such a request every entry has one domain
    agrees              the entry and the accounting then have the same, if they were
                        given the same requests
-/
import LibDrm.Radeon.Table

namespace LibDrm.Radeon

variable {s s' : State} {b : BoId} {c : CsId} {bo : Bo} {cs cs' : Cs}

/-! ## One request -/

/-- Exactly one of the two domains is there. -/
def Reloc.Exclusive (reloc : Reloc) : Prop := reloc.readDomain = 0 ↔ reloc.writeDomain ≠ 0

/-- An accepted request that does not read back what is written leaves the entry with its own domains; they are
    those of before, or the buffer goes over from reading to writing. -/
theorem updateDomains_spec {readDomain writeDomain : BitVec 32} (flags : BitVec 32) {reloc reloc' : Reloc}
    (hrequest : Request readDomain writeDomain) (hback : readDomain &&& reloc.writeDomain = 0)
    (h : updateDomains readDomain writeDomain reloc = some reloc') :
    (updateFlags flags reloc').readDomain = readDomain ∧ (updateFlags flags reloc').writeDomain = writeDomain ∧
      (readDomain = reloc.readDomain ∧ writeDomain = reloc.writeDomain ∨ reloc.readDomain &&& writeDomain ≠ 0) := by
  unfold updateDomains at h
  split at h
  · next hmove =>
    -- the buffer was read and is written now
    cases h
    have hread : readDomain = 0 := by
      rcases hrequest.1 with ⟨-, hwrite⟩ | ⟨hread, -⟩
      · exact absurd hwrite hmove.1
      · exact hread
    exact ⟨by simp [updateFlags], by simp [updateFlags], .inr hmove.2⟩
  · next hmove =>
    rw [if_neg (not_not.mpr hback)] at h
    split at h
    · cases h
    · next hwrite =>
      split at h
      · cases h
      · next hread =>
        cases h
        have hread := not_not.mp hread
        have hwrite := not_not.mp hwrite
        exact ⟨by simp [updateFlags, hread], by simp [updateFlags, hwrite], .inl ⟨hread, hwrite⟩⟩

theorem Request.exclusive {readDomain writeDomain : BitVec 32} (h : Request readDomain writeDomain) :
    readDomain = 0 ↔ writeDomain ≠ 0 := by
  rcases h.1 with ⟨hread, hwrite⟩ | ⟨hread, hwrite⟩
  · exact iff_of_false hread (not_not.mpr hwrite)
  · exact iff_of_true hread hwrite

/-! ## The tables -/

/-- No entry that is written is read back by the request. -/
def Op.KeepsDomains : Op → State → Prop
  | .writeReloc c b readDomain _ _ _, s => ∀ cs bo i reloc, s.cs c = some cs → s.bo b = some bo →
      cs.lookup bo = some i → cs.relocs[i]? = some reloc → readDomain &&& reloc.writeDomain = 0
  | _, _ => True

def State.DomainStep (s s' : State) : Prop := ∃ (op : Op) (ret : Int), op.run s = .ok (ret, s') ∧ op.KeepsDomains s

/-- Every entry of every stream has one domain. -/
def AllExclusive (s : State) : Prop := ∀ c cs, s.cs c = some cs → ∀ reloc ∈ cs.relocs, reloc.Exclusive

/-- The tables are the same, but some may be empty now. -/
def SameTables (s s' : State) : Prop :=
  ∀ c cs', s'.cs c = some cs' → cs'.relocs = [] ∨ ∃ cs, s.cs c = some cs ∧ cs'.relocs = cs.relocs

theorem SameTables.of_setCs (hc : s.cs c = some cs) (hrelocs : cs'.relocs = [] ∨ cs'.relocs = cs.relocs)
    (h : s'.cs = Function.update s.cs c (some cs')) : SameTables s s' := by
  intro d cs₁ hd
  rw [h] at hd
  rcases setCs_cs (s := s) hd with ⟨rfl, rfl⟩ | ⟨-, hd⟩
  · exact hrelocs.imp_right fun h => ⟨cs, hc, h⟩
  · exact .inr ⟨cs₁, hd, rfl⟩

theorem AllExclusive.same (hs : AllExclusive s) (h : SameTables s s') : AllExclusive s' := by
  intro c cs' hc reloc hreloc
  rcases h c cs' hc with hnil | ⟨cs, hc, hrelocs⟩
  · rw [hnil] at hreloc
    cases hreloc
  · exact hs c cs hc reloc (hrelocs ▸ hreloc)

theorem Still.sameTables (h : Still s s') : SameTables s s' := by
  intro c cs' hc
  obtain ⟨cs, hc, hrelocs, -⟩ := h.cs c cs' hc
  exact .inr ⟨cs, hc, hrelocs⟩

theorem Recounted.sameTables {f : BoId → BitVec 32 → BitVec 32} (h : Recounted f s s') : SameTables s s' := by
  intro c cs' hc
  obtain ⟨bos, hcs, -⟩ := h.cs c
  rw [hc] at hcs
  obtain ⟨cs, hc₀, rfl⟩ := Option.map_eq_some_iff.mp hcs.symm
  exact .inr ⟨cs, hc₀, rfl⟩

/-- Releasing buffers does not change a stream. -/
theorem retireAll_cs {f : Bo → Bo} {l : List BoId} : Ensures (l.foldlM (retire f) s) fun s' => s'.cs = s.cs := by
  refine Ensures.foldlM rfl fun s₁ b hs₁ => (retire_spec).mono fun s₂ hs₂ => ?_
  rw [hs₂.rest]
  exact hs₁

theorem csEmit_sameTables {result : Int} : Ensures (csEmit c result s) fun r => SameTables s r.2 := by
  refine (getCs_spec).bind fun cs hc => (padPackets_spec).bind ?_
  rintro _ ⟨packets, n, rfl⟩
  dsimp only
  refine (emitBos_spec retireAll_cs).bind ?_
  rintro s₁ ⟨hs₁, -⟩
  exact .pure (.of_setCs hc (.inr (by rfl)) (congrArg (Function.update · c _) hs₁))

theorem csErase_sameTables : Ensures (csErase c s) (SameTables s) := by
  refine (getCs_spec).bind fun cs hc => ?_
  rw [eraseBos_eq]
  refine (retireAll_cs).bind fun s₁ hs₁ => ?_
  exact .pure (.of_setCs hc (.inl (by rfl)) (congrArg (Function.update · c _) hs₁))

theorem csCreate_sameTables {ndw : Nat} {mem : Nat → Option Nat} : SameTables s (csCreate ndw mem s).2 := by
  rcases csCreate_spec ndw mem s with h | h | ⟨cs, h, -, hrelocs, -⟩
  · rw [h]
    exact Still.refl.sameTables
  · rw [h]
    exact fun c cs hc => .inr ⟨cs, hc, rfl⟩
  · rw [h]
    intro d cs₁ hd
    rcases setCs_cs (s := s) hd with ⟨-, rfl⟩ | ⟨-, hd⟩
    · exact .inl hrelocs
    · exact .inr ⟨cs₁, hd, rfl⟩

theorem csDestroy_sameTables : Ensures (csDestroy c s) (SameTables s) := by
  refine (getCs_spec).bind fun cs hc => .pure fun d cs₁ hd => ?_
  rcases eq_or_ne d c with rfl | hdc
  · simp at hd
  · exact .inr ⟨cs₁, by simpa [hdc] using hd, rfl⟩

theorem doSpaceCheck_sameTables {newTmp : Option SpaceCheck} :
    Ensures (doSpaceCheck c newTmp s) fun r => SameTables s r.2 := by
  refine (doSpaceCheck_spec).mono ?_
  rintro r ⟨cs, -, ⟨-, h, -⟩ | ⟨-, -, -, h⟩ | ⟨-, l, z, -, -, h, -⟩⟩
  · exact h.sameTables
  · rw [h]
    exact Still.refl.sameTables
  · exact h.sameTables

theorem checkSpace_exclusive {tmpBo : Option SpaceCheck} {result : Int} (hs : AllExclusive s) :
    Ensures (checkSpaceInternal (flushCs c result) c tmpBo s) fun r => AllExclusive r.2 := by
  refine checkSpaceInternal_keeps (fun s hs => ?_) (fun s hs => ?_) hs
  · exact (doSpaceCheck_sameTables).mono fun _ h => hs.same h
  · exact (csEmit_sameTables).bind fun r hr => (csErase_sameTables).mono fun _ h => (hs.same hr).same h

/-- An entry that was found has the domains of the request, and so has a new one. -/
theorem Written.exclusive {readDomain writeDomain flags : BitVec 32} (hs : AllExclusive s) (hc : s.cs c = some cs)
    (hrequest : Request readDomain writeDomain)
    (hback : ∀ i reloc, cs.lookup bo = some i → cs.relocs[i]? = some reloc → readDomain &&& reloc.writeDomain = 0)
    (h : Written c b readDomain writeDomain flags s cs bo cs' s') : AllExclusive s' := by
  intro d cs₁ hd reloc₁ hreloc₁
  have hnew : ∀ reloc : Reloc, reloc.readDomain = readDomain → reloc.writeDomain = writeDomain → reloc.Exclusive := by
    intro reloc hread hwrite
    unfold Reloc.Exclusive
    rw [hread, hwrite]
    exact hrequest.exclusive
  cases h with
  | @again i reloc reloc' _ hfind hi hreloc hrelocs _ _ _ _ =>
      rcases setCs_cs hd with ⟨rfl, rfl⟩ | ⟨-, hd⟩
      · rw [hrelocs] at hreloc₁
        rcases List.mem_or_eq_of_mem_set hreloc₁ with hmem | rfl
        · exact hs d cs hc reloc₁ hmem
        · obtain ⟨hread, hwrite, -⟩ := updateDomains_spec flags hrequest (hback i reloc hfind hi) hreloc
          exact hnew _ hread hwrite
      · exact hs d cs₁ hd reloc₁ hreloc₁
  | new hfind hfits hrelocs _ _ _ _ =>
      rcases setCs_cs hd with ⟨rfl, rfl⟩ | ⟨-, hd⟩
      · rw [hrelocs, List.mem_append, List.mem_singleton] at hreloc₁
        rcases hreloc₁ with hmem | rfl
        · exact hs d cs hc reloc₁ hmem
        · exact hnew _ rfl rfl
      · exact hs d cs₁ hd reloc₁ hreloc₁

theorem Op.run_exclusive {op : Op} (hs : AllExclusive s) (hop : op.KeepsDomains s) :
    Ensures (op.run s) fun r => AllExclusive r.2 := by
  have hsame : ∀ {x : Except Fault State}, Ensures x (SameTables s) →
      Ensures (x >>= fun s' => pure ((0 : Int), s')) fun r => AllExclusive r.2 :=
    fun hx => hx.bind fun _ h => .pure (hs.same h)
  cases op with
  | boOpen handle size isStatic => exact .ok (hs.same fun c cs hc => .inr ⟨cs, hc, rfl⟩)
  | boRef b => exact hsame (boRef_still.mono fun _ h => h.sameTables)
  | boUnref b => exact hsame (boUnref_still.mono fun _ h => h.1.sameTables)
  | create ndw mem => exact .ok (hs.same csCreate_sameTables)
  | csBegin c ndw mem => exact (csBegin_still).mono fun _ h => hs.same h.sameTables
  | writeDword c dword => exact (opWriteDword_still).mono fun _ h => hs.same h.sameTables
  | csEnd c => exact (csEnd_still).mono fun _ h => hs.same h.sameTables
  | writeReloc c b readDomain writeDomain flags mem =>
      refine (writeReloc_spec).mono ?_
      rintro r (⟨-, hr⟩ | ⟨-, cs, bo, cs', hc, hb, -, hrequest, hw⟩)
      · rwa [hr]
      · exact hw.exclusive hs hc hrequest fun i reloc => hop cs bo i reloc hc hb
  | emit c result => exact (csEmit_sameTables).mono fun _ h => hs.same h
  | erase c => exact hsame csErase_sameTables
  | destroy c => exact hsame csDestroy_sameTables
  | addPersistentBo c b readDomains writeDomain =>
      exact hsame (spaceAddPersistentBo_still.mono fun _ h => h.sameTables)
  | resetBos c => exact hsame (spaceResetBos_still.mono fun _ h => h.sameTables)
  | spaceCheck c result => exact checkSpace_exclusive hs
  | spaceCheckWithBo c b readDomains writeDomain result => exact checkSpace_exclusive hs

theorem exclusive_of_runs (h : Runs State.Init State.DomainStep s) : AllExclusive s := by
  refine Runs.induct ?_ (fun s s' hs hstep => ?_) h
  · rintro _ ⟨vramLimit, gartLimit, rfl⟩ c cs hc
    cases hc
  · obtain ⟨op, ret, hrun, hop⟩ := hstep
    exact Op.run_exclusive hs hop _ hrun

/-! ## Entries that are written -/

/-- A request that is accepted. -/
def State.WriteStep (s s' : State) : Prop := ∃ c b readDomain writeDomain flags mem,
  writeReloc c b readDomain writeDomain flags mem s = .ok (0, s') ∧
    (Op.writeReloc c b readDomain writeDomain flags mem).KeepsDomains s

/-- The entry at this index is written, in this domain. -/
def WrittenAt (c : CsId) (i : Nat) (handle writeDomain : BitVec 32) (s : State) : Prop :=
  ∃ cs reloc, s.cs c = some cs ∧ cs.relocs[i]? = some reloc ∧ reloc.handle = handle ∧ reloc.readDomain = 0 ∧
    reloc.writeDomain = writeDomain

/-- Once written, an entry stays in its write domain. -/
theorem WrittenAt.step {i : Nat} {handle w : BitVec 32} (h : WrittenAt c i handle w s)
    (hstep : State.WriteStep s s') : WrittenAt c i handle w s' := by
  obtain ⟨d, b, readDomain, writeDomain, flags, mem, hwrite, hback⟩ := hstep
  obtain ⟨cs, reloc, hc, hi, hhandle, hread, rfl⟩ := h
  rcases writeReloc_spec _ hwrite with ⟨hne, -⟩ | ⟨-, cs₁, bo, cs', hd, hb, -, hrequest, hwritten⟩
  · exact absurd rfl hne
  cases hwritten with
  | @again j reloc₁ reloc' _ hfind hj hreloc hrelocs _ _ _ _ =>
      rcases eq_or_ne c d with rfl | hcd
      · cases hc.symm.trans hd
        refine ⟨cs', ?_⟩
        rcases eq_or_ne j i with rfl | hji
        · cases hi.symm.trans hj
          obtain ⟨hread', hwrite', hmove⟩ := updateDomains_spec flags hrequest
            (hback cs bo j reloc hc hb hfind hi) hreloc
          have hlt : j < cs.relocs.length := (List.getElem?_eq_some_iff.mp hi).1
          refine ⟨updateFlags flags reloc', setCs_cs_self, by simp [hrelocs, hlt], ?_, ?_, ?_⟩
          · rw [updateDomains_handle hreloc, hhandle]
          · rcases hmove with ⟨hsame, -⟩ | hmove
            · rw [hread', hsame, hread]
            · simp [hread] at hmove
          · rcases hmove with ⟨-, hsame⟩ | hmove
            · rw [hwrite', hsame]
            · simp [hread] at hmove
        · exact ⟨reloc, setCs_cs_self, by rw [hrelocs, List.getElem?_set_ne hji, hi], hhandle, hread, rfl⟩
      · exact ⟨cs, reloc, by simpa [State.setCs, hcd] using hc, hi, hhandle, hread, rfl⟩
  | new hfind hfits hrelocs _ _ _ _ =>
      rcases eq_or_ne c d with rfl | hcd
      · cases hc.symm.trans hd
        have hlt : i < cs.relocs.length := (List.getElem?_eq_some_iff.mp hi).1
        exact ⟨cs', reloc, setCs_cs_self, by rw [hrelocs, List.getElem?_append_left hlt, hi], hhandle, hread, rfl⟩
      · exact ⟨cs, reloc, by simpa [State.setCs, State.setBo, hcd] using hc, hi, hhandle, hread, rfl⟩

/-! ## What the accounting was asked -/

/-- The domains of a request. -/
abbrev Domains := BitVec 32 × BitVec 32

/-- As `space_accounted` has them. -/
def Domains.packed (d : Domains) : BitVec 32 := d.1 <<< 16 ||| d.2

/-- The second request may follow the first: it is the same, or it writes what was read. -/
def Domains.Follows (d e : Domains) : Prop := e = d ∨ d.1 &&& e.2 ≠ 0

theorem Domains.Follows.trans {d e f : Domains} (he : Request e.1 e.2) (h : d.Follows e) (h' : e.Follows f) :
    d.Follows f := by
  rcases h with rfl | h
  · exact h'
  · rcases h' with rfl | h'
    · exact .inr h
    · -- what is written is not read
      have hwrite : e.2 ≠ 0 := fun h0 => h (by simp [h0])
      have hread : e.1 = 0 := he.exclusive.mpr hwrite
      simp [hread] at h'

/-- Requests for one buffer in one stream, each of which may follow the others. -/
structure Plain (l : List Domains) : Prop where
  follows : l.Pairwise Domains.Follows
  requests : ∀ d ∈ l, Request d.1 d.2

/-- What is recorded after the requests. -/
def packedLast (l : List Domains) : BitVec 32 := (l.getLast?.map Domains.packed).getD 0

theorem Plain.nil : Plain [] := ⟨.nil, nofun⟩

theorem Plain.concat {l : List Domains} {d : Domains} (h : Plain l) (hd : Request d.1 d.2)
    (hfollows : ∀ e, l.getLast? = some e → e.Follows d) : Plain (l ++ [d]) := by
  refine ⟨List.pairwise_append.mpr ⟨h.follows, List.pairwise_singleton .., ?_⟩, ?_⟩
  · intro e he d' hd'
    rw [List.mem_singleton] at hd'
    subst hd'
    rcases List.eq_nil_or_concat l with rfl | ⟨l₀, f, rfl⟩
    · cases he
    · rw [List.concat_eq_append] at *
      have hlast := hfollows f (by simp)
      rcases List.mem_append.mp he with he | he
      · refine Domains.Follows.trans (h.requests f (by simp)) ?_ hlast
        exact (List.pairwise_append.mp h.follows).2.2 e he f (by simp)
      · rw [List.mem_singleton] at he
        exact he ▸ hlast
  · intro e he
    rcases List.mem_append.mp he with he | he
    · exact h.requests e he
    · rw [List.mem_singleton] at he
      exact he ▸ hd

theorem Domains.packed_read {d : Domains} (h : d.2 = 0) : d.packed = d.1 <<< 16 := by simp [Domains.packed, h]

theorem Domains.packed_write {d : Domains} (h : d.1 = 0) : d.packed = d.2 := by simp [Domains.packed, h]

/-- What was recorded before does not show in what is recorded for a request that may follow. -/
theorem accountBo_packed {d : Domains} {z z' : Sizes} {a : BitVec 32} (hd : Request d.1 d.2)
    (hbefore : bo.spaceAccounted = 0 ∨ ∃ e : Domains, bo.spaceAccounted = e.packed ∧ e.Follows d)
    (h : accountBo d.1 d.2 bo z = some (a, z')) : a = d.packed := by
  have hread : d.2 ≠ 0 → d.packed = d.2 := fun hwrite => Domains.packed_write (hd.exclusive.mpr hwrite)
  have hwrite : d.1 ≠ 0 → d.packed = d.1 <<< 16 := by
    intro hread
    exact Domains.packed_read (not_not.mp (mt hd.exclusive.mpr hread))
  cases accountBo_cases h with
  | sameWrite hsame => rw [← hsame.2, hread hsame.1]
  | sameRead hsame => rw [← hsame.2, hwrite hsame.1]
  | write _ hw => rw [hread hw]
  | read _ hw => rw [hwrite (mt hd.exclusive.mp (not_not.mpr hw))]
  | move _ hmove _ => rw [hread hmove.1]
  | moveOther _ hmove _ => rw [hread hmove.1]
  | readBack hnotWrite hnotRead hsome hback =>
      -- the request reads what is written, and does not follow
      rcases hbefore with h0 | ⟨e, he, rfl | hover⟩
      · exact absurd h0 hsome
      · by_cases hw : d.2 = 0
        · have hr : d.1 ≠ 0 := mt hd.exclusive.mp (not_not.mpr hw)
          exact absurd ⟨hr, by rw [he, hwrite hr]⟩ hnotRead
        · exact absurd ⟨hw, by rw [he, hread hw]⟩ hnotWrite
      · have hw : d.2 ≠ 0 := fun h0 => hover (by simp [h0])
        simp [hd.exclusive.mpr hw] at hback

/-- The requests of a check for one buffer. -/
def requestsFor (b : BoId) (l : List SpaceCheck) : List Domains :=
  (l.filter (·.bo = b)).map fun sc => (sc.readDomains, sc.writeDomain)

theorem requestsFor_cons {sc : SpaceCheck} {l : List SpaceCheck} : requestsFor b (sc :: l) =
    if sc.bo = b then (sc.readDomains, sc.writeDomain) :: requestsFor b l else requestsFor b l := by
  unfold requestsFor
  by_cases h : sc.bo = b
  · simp [h]
  · simp [h]

/-- The last request of the check is recorded, if each may follow what was recorded before it. -/
theorem Setup.last_request {l l' : List SpaceCheck} {z z' : Sizes} (h : Setup s l z l' z') (hb : s.bo b = some bo)
    (hstatic : bo.isStatic = false)
    (hfollows : ∀ d ∈ requestsFor b l, Request d.1 d.2 ∧
      (bo.spaceAccounted = 0 ∨ ∃ e : Domains, bo.spaceAccounted = e.packed ∧ e.Follows d)) (a : BitVec 32) :
    lastRecorded l' b a = ((requestsFor b l).getLast?.map Domains.packed).getD a := by
  induction h generalizing a with
  | nil => rfl
  | @fixed sc l l' z z' bo' a' hb' hstatic' _ ih =>
      have hne : b ≠ sc.bo := by
        rintro rfl
        cases hb.symm.trans hb'
        rw [hstatic] at hstatic'
        cases hstatic'
      rw [requestsFor_cons, if_neg (Ne.symm hne)] at hfollows ⊢
      rw [← ih hfollows a]
      simp [lastRecorded, hne]
  | @counted sc l l' z z₁ z' bo' a' hb' hstatic' ha _ ih =>
      rcases eq_or_ne b sc.bo with rfl | hne
      · cases hb.symm.trans hb'
        rw [requestsFor_cons, if_pos rfl] at hfollows ⊢
        obtain ⟨hd, hbefore⟩ := hfollows _ List.mem_cons_self
        have ha' := accountBo_packed hd hbefore ha
        have hrest := ih (fun d hd => hfollows d (List.mem_cons_of_mem _ hd)) a'
        simp only [lastRecorded, List.foldl_cons, if_pos] at hrest ⊢
        rw [hrest, List.getLast?_cons]
        cases (requestsFor sc.bo l).getLast? with
        | none => simpa using ha'
        | some d => rfl
      · rw [requestsFor_cons, if_neg (Ne.symm hne)] at hfollows ⊢
        rw [← ih hfollows a]
        simp [lastRecorded, hne]

/-! ## A log of the requests -/

/-- The requests that the accounting was asked for a buffer since it was last emitted, and those that a stream has
    accepted for it since it was last emptied. -/
structure Log where
  checked : BoId → List Domains
  written : CsId → BoId → List Domains

namespace Log

def check (l : List SpaceCheck) (L : Log) : Log := { L with checked := fun b => L.checked b ++ requestsFor b l }

def write (c : CsId) (b : BoId) (d : Domains) (L : Log) : Log :=
  { L with written := Function.update L.written c (Function.update (L.written c) b (L.written c b ++ [d])) }

def erase (c : CsId) (L : Log) : Log := { L with written := Function.update L.written c fun _ => [] }

/-- What is recorded for the buffers of the stream is forgotten. -/
def emit (c : CsId) (cs : Cs) (L : Log) : Log :=
  { L.erase c with checked := fun b => if b ∈ cs.held then [] else L.checked b }

/-- A space check that returns `ret`, with its flush. -/
def spaceCheck (c : CsId) (tmpBo : Option SpaceCheck) (s : State) (ret : Int) (L : Log) : Log :=
  match s.cs c with
  | none => L
  | some cs =>
      let L := if (doSpaceCheck c tmpBo s).toOption.map (·.1) = some RADEON_CS_SPACE_FLUSH then L.emit c cs else L
      if ret = 0 then L.check (cs.bos ++ tmpBo.toList) else L

end Log

/-- The log after a call that returns `ret`. -/
def Op.log : Op → State → Int → Log → Log
  | .writeReloc c b readDomain writeDomain _ _, _, ret, L => if ret = 0 then L.write c b (readDomain, writeDomain) else L
  | .emit c _, s, _, L => (s.cs c).elim L fun cs => L.emit c cs
  | .erase c, _, _, L => L.erase c
  | .spaceCheck c _, s, ret, L => L.spaceCheck c none s ret
  | .spaceCheckWithBo c b readDomains writeDomain _, s, ret, L =>
      L.spaceCheck c (some { bo := b, readDomains, writeDomain }) s ret
  | _, _, _, L => L

/-- What the log says about a state. -/
structure Logged (L : Log) (s : State) : Prop where
  table : TableOk s
  recorded : ∀ b bo, s.bo b = some bo → bo.isStatic = false → Plain (L.checked b) →
    bo.spaceAccounted = packedLast (L.checked b)
  entries : ∀ c cs b (i : Nat) reloc, s.cs c = some cs → cs.relocsBo[i]? = some (some b) → cs.relocs[i]? = some reloc →
    Plain (L.written c b) ∧ (L.written c b).getLast? = some (reloc.readDomain, reloc.writeDomain)
  unwritten : ∀ c cs b, s.cs c = some cs → b ∉ cs.held → L.written c b = []
  newBo : ∀ b, s.freshBo ≤ b → L.checked b = []
  newCs : ∀ c b, s.freshCs ≤ c → L.written c b = []

namespace Logged

variable {L : Log}

theorem still (h : Logged L s) (hs : Still s s') : Logged L s' where
  table := h.table.similar hs.similar
  recorded b bo' hb hstatic := by
    obtain ⟨bo, n, hb₀, rfl⟩ := hs.bo b bo' hb
    exact h.recorded b bo hb₀ hstatic
  entries c cs' b i reloc hc hi hreloc := by
    obtain ⟨cs, hc, hrelocs, hbos, -⟩ := hs.cs c cs' hc
    exact h.entries c cs b i reloc hc (hbos ▸ hi) (hrelocs ▸ hreloc)
  unwritten c cs' b hc hb := by
    obtain ⟨cs, hc, -, hbos, -⟩ := hs.cs c cs' hc
    exact h.unwritten c cs b hc (by rwa [Cs.held, ← hbos])
  newBo := by
    rw [hs.freshBo]
    exact h.newBo
  newCs := by
    rw [hs.freshCs]
    exact h.newCs

/-- A check whose new records are those of the log. -/
theorem recounted {f : BoId → BitVec 32 → BitVec 32} {checked : BoId → List Domains} (h : Logged L s)
    (hs : Recounted f s s')
    (hrecorded : ∀ b bo, s.bo b = some bo → bo.isStatic = false → Plain (checked b) →
      f b bo.spaceAccounted = packedLast (checked b))
    (hnew : ∀ b, s.freshBo ≤ b → checked b = []) : Logged { L with checked } s' where
  table := h.table.similar hs.similar
  recorded b bo' hb hstatic hplain := by
    obtain ⟨a, hbo, ha⟩ := hs.bo b
    rw [hb] at hbo
    obtain ⟨bo, hb₀, rfl⟩ := Option.map_eq_some_iff.mp hbo.symm
    rw [← hrecorded b bo hb₀ hstatic hplain]
    exact ha bo hb₀ hstatic
  entries c cs' b i reloc hc hi hreloc := by
    obtain ⟨bos, hcs, -⟩ := hs.cs c
    rw [hc] at hcs
    obtain ⟨cs, hc₀, rfl⟩ := Option.map_eq_some_iff.mp hcs.symm
    exact h.entries c cs b i reloc hc₀ hi hreloc
  unwritten c cs' b hc hb := by
    obtain ⟨bos, hcs, -⟩ := hs.cs c
    rw [hc] at hcs
    obtain ⟨cs, hc₀, rfl⟩ := Option.map_eq_some_iff.mp hcs.symm
    exact h.unwritten c cs b hc₀ hb
  newBo := by
    rw [hs.freshBo]
    exact hnew
  newCs := by
    rw [hs.freshCs]
    exact h.newCs

end Logged

theorem requestsFor_nil {l : List SpaceCheck} (h : ∀ sc ∈ l, sc.bo ≠ b) : requestsFor b l = [] := by
  unfold requestsFor
  rw [List.filter_eq_nil_iff.mpr fun sc hsc => by simpa using h sc hsc]
  rfl

theorem requestsFor_congr {l l' : List SpaceCheck} (h : l.map SpaceCheck.request = l'.map SpaceCheck.request) :
    requestsFor b l = requestsFor b l' := by
  induction l generalizing l' with
  | nil =>
      rw [List.map_nil, eq_comm, List.map_eq_nil_iff] at h
      rw [h]
  | cons sc l ih =>
      cases l' with
      | nil => cases h
      | cons sc' l' =>
          obtain ⟨hsc, hl⟩ := List.cons.inj h
          simp only [SpaceCheck.request, Prod.mk.injEq] at hsc
          rw [requestsFor_cons, requestsFor_cons, ih hl, hsc.1, hsc.2.1, hsc.2.2]

/-- A check goes through buffers that are there. -/
theorem Setup.alive {l l' : List SpaceCheck} {z z' : Sizes} (h : Setup s l z l' z') :
    ∀ sc ∈ l, ∃ bo, s.bo sc.bo = some bo := by
  induction h with
  | nil => nofun
  | fixed hb _ _ ih => exact List.forall_mem_cons.mpr ⟨⟨_, hb⟩, ih⟩
  | counted hb _ _ _ ih => exact List.forall_mem_cons.mpr ⟨⟨_, hb⟩, ih⟩

theorem Plain.of_append_left {l l' : List Domains} (h : Plain (l ++ l')) : Plain l :=
  ⟨(List.pairwise_append.mp h.follows).1, fun d hd => h.requests d (List.mem_append_left _ hd)⟩

theorem packedLast_append {l l' : List Domains} :
    packedLast (l ++ l') = (l'.getLast?.map Domains.packed).getD (packedLast l) := by
  unfold packedLast
  rw [List.getLast?_append]
  cases l'.getLast? with
  | none => rfl
  | some d => rfl

/-- One attempt of a space check. -/
theorem doSpaceCheck_logged {L : Log} {tmpBo : Option SpaceCheck} (h : Logged L s) (hc : s.cs c = some cs) :
    Ensures (doSpaceCheck c tmpBo s) fun r =>
      Logged (if r.1 = 0 then L.check (cs.bos ++ tmpBo.toList) else L) r.2 ∧
        ∃ bos, r.2.cs c = some (cs.withBos bos) ∧ bos.map SpaceCheck.request = cs.bos.map SpaceCheck.request := by
  have hkept : ∀ {f s'}, Recounted f s s' → ∃ bos, s'.cs c = some (cs.withBos bos) ∧
      bos.map SpaceCheck.request = cs.bos.map SpaceCheck.request := by
    intro f s' hs
    obtain ⟨bos, hbos, hrequests⟩ := hs.cs c
    exact ⟨bos, by rw [hbos, hc]; rfl, hrequests cs hc⟩
  refine (doSpaceCheck_spec).mono ?_
  rintro ⟨ret, s'⟩ ⟨cs₁, hc₁, hcase⟩
  cases hc.symm.trans hc₁
  rcases hcase with ⟨hret, hs, -⟩ | ⟨hret, hbos, htmp, hs⟩ | ⟨hret, l, z, hsetup, -, hs, -⟩
  · have hret : ret ≠ 0 := by
      rcases hret with rfl | rfl <;> decide
    rw [if_neg hret]
    exact ⟨h.recounted hs h.recorded h.newBo, hkept hs⟩
  · have hs : s' = s := hs
    have hnone : L.check (cs.bos ++ tmpBo.toList) = L := by simp [Log.check, hbos, htmp, requestsFor]
    rw [if_pos hret, hnone, hs]
    exact ⟨h, hkept .refl⟩
  · rw [if_pos hret]
    refine ⟨h.recounted hs ?_ ?_, hkept hs⟩
    · intro b bo hb hstatic hplain
      have hbefore := h.recorded b bo hb hstatic hplain.of_append_left
      rw [packedLast_append, ← hbefore]
      refine hsetup.last_request hb hstatic (fun d hd => ⟨hplain.requests d (List.mem_append_right _ hd), ?_⟩) _
      rcases List.eq_nil_or_concat (L.checked b) with hnil | ⟨l₀, e, hlast⟩
      · exact .inl (by rw [hbefore, hnil]; rfl)
      · rw [List.concat_eq_append] at hlast
        refine .inr ⟨e, by rw [hbefore, hlast]; simp [packedLast], ?_⟩
        have hfollows := (List.pairwise_append.mp hplain.follows).2.2
        exact hfollows e (by rw [hlast]; simp) d hd
    · intro b hb
      rw [h.newBo b hb, List.nil_append]
      refine requestsFor_nil fun sc hsc hsame => ?_
      obtain ⟨bo, hbo⟩ := hsetup.alive sc hsc
      rw [hsame, h.table.newBo b hb] at hbo
      cases hbo

theorem held_withBos {bos : List SpaceCheck} : (cs.withBos bos).held = cs.held := rfl

/-- A stream lets go of its buffers. -/
theorem Logged.emptied {L : Log} {checked : BoId → List Domains} (h : Logged L s) (htable : TableOk s')
    (hcs : s'.cs = Function.update s.cs c (some cs')) (hheld : cs'.held = []) (hfreshBo : s'.freshBo = s.freshBo)
    (hfreshCs : s'.freshCs = s.freshCs)
    (hrecorded : ∀ b bo, s'.bo b = some bo → bo.isStatic = false → Plain (checked b) →
      bo.spaceAccounted = packedLast (checked b))
    (hchecked : ∀ b, s.freshBo ≤ b → checked b = []) : Logged { L.erase c with checked } s' := by
  have hother : ∀ {d}, d ≠ c → (L.erase c).written d = L.written d := by
    intro d hdc
    simp [Log.erase, hdc]
  refine ⟨htable, hrecorded, ?_, ?_, by rwa [hfreshBo], ?_⟩
  · intro d cs₁ b i reloc hd hi hreloc
    rw [hcs] at hd
    rcases setCs_cs (s := s) hd with ⟨rfl, rfl⟩ | ⟨hdc, hd⟩
    · have hmem := (mem_held).mpr (List.mem_of_getElem? hi)
      simp [hheld] at hmem
    · simp only [hother hdc]
      exact h.entries d cs₁ b i reloc hd hi hreloc
  · intro d cs₁ b hd hb
    rw [hcs] at hd
    rcases setCs_cs (s := s) hd with ⟨rfl, rfl⟩ | ⟨hdc, hd⟩
    · simp [Log.erase]
    · simp only [hother hdc]
      exact h.unwritten d cs₁ b hd hb
  · intro d b hd
    rw [hfreshCs] at hd
    rcases eq_or_ne d c with rfl | hdc
    · simp [Log.erase]
    · simp only [hother hdc]
      exact h.newCs d b hd

/-- `emit` forgets what is recorded for the buffers of the stream. -/
theorem csEmit_logged {L : Log} {result : Int} (h : Logged L s) (hc : s.cs c = some cs) :
    Ensures (csEmit c result s) fun r => Logged (L.emit c cs) r.2 ∧
      ∃ cs', r.2.cs c = some cs' ∧ cs'.held = [] ∧ cs'.bos = cs.bos := by
  intro r hr
  have htable := csEmit_table h.table r hr
  obtain ⟨-, cs₁, cs', s₁, hc₁, -, hret, hs, hrelocs, hbos, hid, hspace⟩ :=
    csEmit_spec (fun cs hc => (h.table.sound c cs hc).held) r hr
  cases hc.symm.trans hc₁
  have hheld : cs'.held = [] := by simp [Cs.held, hbos]
  have hcs : r.2.cs = Function.update s.cs c (some cs') := by
    rw [hs, hret.rest]
    rfl
  have hfresh : r.2.freshBo = s.freshBo ∧ r.2.freshCs = s.freshCs := by
    rw [hs, hret.rest]
    exact ⟨rfl, rfl⟩
  refine ⟨h.emptied htable hcs hheld hfresh.1 hfresh.2 ?_ ?_, cs', by rw [hcs, Function.update_self], hheld, hspace⟩
  · intro b bo' hb hstatic hplain
    rw [hs] at hb
    obtain ⟨bo, n, hb₀, rfl⟩ := hret.bo b bo' hb
    by_cases hmem : b ∈ cs.held
    · simp [hmem, Bo.counted, Bo.emitted, packedLast]
    · simp only [hmem, if_false] at hstatic hplain ⊢
      exact h.recorded b bo hb₀ hstatic hplain
  · intro b hb
    simp [h.newBo b hb]

theorem csErase_logged {L : Log} (h : Logged L s) (hc : s.cs c = some cs) : Ensures (csErase c s) fun s' =>
    Logged (L.erase c) s' ∧ ∃ cs', s'.cs c = some cs' ∧ cs'.held = [] ∧ cs'.bos = cs.bos := by
  intro s' hs'
  have htable := csErase_table h.table s' hs'
  obtain ⟨cs₁, cs', s₁, hc₁, hret, rfl, hrelocs, hbos, hid, hspace⟩ :=
    csErase_spec (fun cs hc => (h.table.sound c cs hc).held) s' hs'
  cases hc.symm.trans hc₁
  have hheld : cs'.held = [] := by simp [Cs.held, hbos]
  have hcs : (s₁.setCs c cs').cs = Function.update s.cs c (some cs') := by
    rw [hret.rest]
    rfl
  have hfresh : s₁.freshBo = s.freshBo ∧ s₁.freshCs = s.freshCs := by
    rw [hret.rest]
    exact ⟨rfl, rfl⟩
  refine ⟨h.emptied htable hcs hheld hfresh.1 hfresh.2 ?_ h.newBo, cs', setCs_cs_self, hheld, hspace⟩
  intro b bo' hb hstatic hplain
  obtain ⟨bo, n, hb₀, rfl⟩ := hret.bo b bo' hb
  by_cases hmem : b ∈ cs.held
  · simp only [hmem, if_true] at hstatic ⊢
    exact h.recorded b bo hb₀ hstatic hplain
  · simp only [hmem, if_false] at hstatic ⊢
    exact h.recorded b bo hb₀ hstatic hplain

theorem Log.emit_erase {L : Log} : (L.emit c cs).erase c = L.emit c cs := by
  simp [Log.emit, Log.erase]

/-- A stream that holds nothing can be flushed again. -/
theorem Log.emit_emit {L : Log} (h : cs'.held = []) : (L.emit c cs).emit c cs' = L.emit c cs := by
  simp [Log.emit, Log.erase, h]

theorem flushCs_logged {L : Log} {result : Int} (h : Logged L s) (hc : s.cs c = some cs) :
    Ensures (flushCs c result s) fun s' => Logged (L.emit c cs) s' ∧
      ∃ cs', s'.cs c = some cs' ∧ cs'.held = [] ∧ cs'.bos = cs.bos := by
  refine (csEmit_logged h hc).bind ?_
  rintro r ⟨hr, cs₁, hc₁, -, hbos₁⟩
  refine (csErase_logged hr hc₁).mono ?_
  rintro s' ⟨hs', cs₂, hc₂, hheld₂, hbos₂⟩
  rw [Log.emit_erase] at hs'
  exact ⟨hs', cs₂, hc₂, hheld₂, hbos₂.trans hbos₁⟩

theorem checkSpace_logged {L : Log} {tmpBo : Option SpaceCheck} {result : Int} (h : Logged L s) :
    Ensures (checkSpaceInternal (flushCs c result) c tmpBo s) fun r => Logged (L.spaceCheck c tmpBo s r.1) r.2 := by
  rintro ⟨ret, s'⟩ hr
  -- the log, by what the first attempt returned
  have hlog : ∀ {ret₁ s₁ cs}, doSpaceCheck c tmpBo s = .ok (ret₁, s₁) → s.cs c = some cs →
      L.spaceCheck c tmpBo s ret =
        if ret = 0 then (if ret₁ = RADEON_CS_SPACE_FLUSH then L.emit c cs else L).check (cs.bos ++ tmpBo.toList)
        else if ret₁ = RADEON_CS_SPACE_FLUSH then L.emit c cs else L := by
    intro ret₁ s₁ cs hdo hc
    simp only [Log.spaceCheck, hc, hdo, Except.toOption, Option.map_some, Option.some.injEq]
  rcases checkSpaceInternal_cases hr with ⟨hdo, rfl⟩ | ⟨hdo, rfl⟩ | ⟨s₁, s₂, hdo, hflush, hagain⟩
  · obtain ⟨cs, hc, -⟩ := doSpaceCheck_spec _ hdo
    rw [hlog hdo hc]
    exact (doSpaceCheck_logged h hc _ hdo).1
  · obtain ⟨cs, hc, -⟩ := doSpaceCheck_spec _ hdo
    rw [hlog hdo hc]
    exact (doSpaceCheck_logged h hc _ hdo).1
  · obtain ⟨cs, hc, -⟩ := doSpaceCheck_spec _ hdo
    obtain ⟨hs₁, bos₁, hc₁, hbos₁⟩ := doSpaceCheck_logged h hc _ hdo
    obtain ⟨hs₂, cs₂, hc₂, hheld₂, hbos₂⟩ := flushCs_logged hs₁ hc₁ _ hflush
    have hs₂ : Logged (L.emit c cs) s₂ := hs₂
    rw [hlog hdo hc]
    rcases hagain with ⟨hdo₂, rfl⟩ | ⟨hdo₂, rfl⟩ | ⟨s₃, hdo₂, hflush₂, rfl⟩
    · have hs' := (doSpaceCheck_logged hs₂ hc₂ _ hdo₂).1
      have hsame : (L.emit c cs).check (cs₂.bos ++ tmpBo.toList) = (L.emit c cs).check (cs.bos ++ tmpBo.toList) := by
        have hbos : (cs₂.bos ++ tmpBo.toList).map SpaceCheck.request = (cs.bos ++ tmpBo.toList).map SpaceCheck.request := by
          rw [hbos₂, List.map_append, List.map_append]
          exact congrArg (· ++ _) hbos₁
        simp only [Log.check, requestsFor_congr hbos]
      rw [if_pos rfl, if_pos rfl, ← hsame]
      exact hs'
    · exact (doSpaceCheck_logged hs₂ hc₂ _ hdo₂).1
    · obtain ⟨hs₃, bos₃, hc₃, -⟩ := doSpaceCheck_logged hs₂ hc₂ _ hdo₂
      obtain ⟨hs', -⟩ := flushCs_logged hs₃ hc₃ _ hflush₂
      have hs' : Logged ((L.emit c cs).emit c (cs₂.withBos bos₃)) s' := hs'
      have hheld₃ : (cs₂.withBos bos₃).held = [] := hheld₂
      rwa [Log.emit_emit hheld₃] at hs'

theorem csCreate_logged {L : Log} {ndw : Nat} {mem : Nat → Option Nat} (h : Logged L s) :
    Logged L (csCreate ndw mem s).2 := by
  have htable : TableOk (csCreate ndw mem s).2 := csCreate_table h.table
  rcases csCreate_spec ndw mem s with hs | hs | ⟨cs, hs, -, hrelocs, hbos, -⟩
  · rwa [hs]
  · rw [hs] at htable ⊢
    exact ⟨htable, h.recorded, h.entries, h.unwritten, h.newBo, h.newCs⟩
  · rw [hs] at htable ⊢
    refine ⟨htable, h.recorded, ?_, ?_, h.newBo, ?_⟩
    · intro d cs₁ b i reloc hd hi hreloc
      rcases setCs_cs (s := s) hd with ⟨-, rfl⟩ | ⟨-, hd⟩
      · simp [hbos] at hi
      · exact h.entries d cs₁ b i reloc hd hi hreloc
    · intro d cs₁ b hd hb
      rcases setCs_cs (s := s) hd with ⟨rfl, -⟩ | ⟨-, hd⟩
      · exact h.newCs _ b le_rfl
      · exact h.unwritten d cs₁ b hd hb
    · exact fun d b hd => h.newCs d b (Nat.le_of_succ_le hd)

theorem csDestroy_logged {L : Log} (h : Logged L s) (hempty : ∀ cs b, s.cs c = some cs → b ∈ cs.held → cs.id = 0) :
    Ensures (csDestroy c s) (Logged L) := by
  intro s' hs'
  have htable := csDestroy_table h.table hempty s' hs'
  obtain ⟨cs, hc, hs'⟩ := exists_of_bind_ok hs'
  cases hs'
  have hcs : ∀ d cs₁, Function.update s.cs c none d = some cs₁ → s.cs d = some cs₁ := by
    intro d cs₁ hd
    rcases eq_or_ne d c with rfl | hdc
    · simp at hd
    · simpa [hdc] using hd
  exact ⟨htable, h.recorded, fun d cs₁ b i reloc hd => h.entries d cs₁ b i reloc (hcs d cs₁ hd),
    fun d cs₁ b hd => h.unwritten d cs₁ b (hcs d cs₁ hd), h.newBo, h.newCs⟩

theorem boOpen_logged {L : Log} {handle size : BitVec 32} {isStatic : Bool} (h : Logged L s) :
    Logged L (boOpen handle size isStatic s).2 := by
  refine ⟨boOpen_table h.table, ?_, h.entries, h.unwritten, ?_, h.newCs⟩
  · intro b bo hb hstatic hplain
    rcases setBo_bo (s := s) hb with ⟨rfl, rfl⟩ | ⟨-, hb⟩
    · rw [h.newBo _ le_rfl]
      rfl
    · exact h.recorded b bo hb hstatic hplain
  · exact fun b hb => h.newBo b (Nat.le_of_succ_le hb)

theorem Log.write_self {L : Log} {d : Domains} : (L.write c b d).written c b = L.written c b ++ [d] := by
  simp [Log.write]

theorem Log.write_of_ne {L : Log} {d : Domains} {c' : CsId} {b' : BoId} (h : c' ≠ c ∨ b' ≠ b) :
    (L.write c b d).written c' b' = L.written c' b' := by
  unfold Log.write
  rcases eq_or_ne c' c with rfl | hc
  · have hb : b' ≠ b := h.resolve_left (not_not.mpr rfl)
    simp [hb]
  · simp [hc]

/-- The entry that is looked up is that of the buffer, and no other is. -/
theorem lookup_entry (hok : TableOk s) (hc : s.cs c = some cs) (hb : s.bo b = some bo) (hfinds : cs.Finds b bo) {i : Nat}
    (hfind : cs.lookup bo = some i) :
    cs.relocsBo[i]? = some (some b) ∧ ∀ j : Nat, cs.relocsBo[j]? = some (some b) → j = i := by
  unfold Cs.lookup at hfind
  split at hfind
  · obtain ⟨reloc, hi, hhandle⟩ := findReloc_some hfind
    have hi : cs.handles[i]? = some bo.handle := by simp [Cs.handles, hi, hhandle]
    refine ⟨(hfinds i hi).2, fun j hj => ?_⟩
    have hj := hok.entry c cs b bo j hc hb hj
    have hlt : j < cs.handles.length := (List.getElem?_eq_some_iff.mp hj).1
    exact (List.getElem?_inj hlt (hok.sound c cs hc).handles).mp (hj.trans hi.symm)
  · cases hfind

/-- An accepted request is added to those of its buffer, and its domains are those of the entry. -/
theorem Written.logged {L : Log} {readDomain writeDomain flags : BitVec 32} (h : Logged L s) (hc : s.cs c = some cs)
    (hb : s.bo b = some bo) (hrequest : Request readDomain writeDomain) (hfinds : cs.Finds b bo)
    (hback : ∀ i reloc, cs.lookup bo = some i → cs.relocs[i]? = some reloc → readDomain &&& reloc.writeDomain = 0)
    (hw : Written c b readDomain writeDomain flags s cs bo cs' s') : Logged (L.write c b (readDomain, writeDomain)) s' := by
  have htable := hw.table h.table hc hb hfinds
  have hnewCs : ∀ d b₁, s.freshCs ≤ d → (L.write c b (readDomain, writeDomain)).written d b₁ = [] := by
    intro d b₁ hd
    rw [Log.write_of_ne (.inl ?_)]
    · exact h.newCs d b₁ hd
    · rintro rfl
      rw [h.table.newCs d hd] at hc
      cases hc
  cases hw with
  | @again i reloc reloc' _ hfind hi hreloc hrelocs hbos _ hid _ =>
      obtain ⟨hentry, honly⟩ := lookup_entry h.table hc hb hfinds hfind
      refine ⟨htable, h.recorded, ?_, ?_, h.newBo, hnewCs⟩
      · intro d cs₁ b₁ j reloc₁ hd hj hreloc₁
        rcases setCs_cs hd with ⟨rfl, rfl⟩ | ⟨hdc, hd⟩
        · rw [hbos] at hj
          rw [hrelocs] at hreloc₁
          rcases eq_or_ne j i with rfl | hji
          · -- the entry that was found
            cases hentry.symm.trans hj
            obtain ⟨hread, hwrite, hmove⟩ := updateDomains_spec flags hrequest (hback j reloc hfind hi) hreloc
            obtain ⟨hplain, hlast⟩ := h.entries d cs b j reloc hc hentry hi
            rw [List.getElem?_set_self (List.getElem?_eq_some_iff.mp hi).1] at hreloc₁
            cases hreloc₁
            rw [Log.write_self, hread, hwrite]
            refine ⟨hplain.concat hrequest fun e he => ?_, by simp⟩
            cases hlast.symm.trans he
            rcases hmove with ⟨hsame, hsame'⟩ | hmove
            · exact .inl (by rw [hsame, hsame'])
            · exact .inr hmove
          · rw [List.getElem?_set_ne (Ne.symm hji)] at hreloc₁
            have hne : b₁ ≠ b := by
              rintro rfl
              exact hji (honly j hj)
            rw [Log.write_of_ne (.inr hne)]
            exact h.entries d cs b₁ j reloc₁ hc hj hreloc₁
        · rw [Log.write_of_ne (.inl hdc)]
          exact h.entries d cs₁ b₁ j reloc₁ hd hj hreloc₁
      · intro d cs₁ b₁ hd hb₁
        rcases setCs_cs hd with ⟨rfl, rfl⟩ | ⟨hdc, hd⟩
        · rw [Cs.held, hbos] at hb₁
          have hne : b₁ ≠ b := by
            rintro rfl
            exact hb₁ (mem_held.mpr (List.mem_of_getElem? hentry))
          rw [Log.write_of_ne (.inr hne)]
          exact h.unwritten d cs b₁ hc hb₁
        · rw [Log.write_of_ne (.inl hdc)]
          exact h.unwritten d cs₁ b₁ hd hb₁
  | new hfind hfits hrelocs hbos _ hid _ =>
      have hheld : cs'.held = cs.held ++ [b] := by simp [Cs.held, hbos, List.reduceOption_append]
      have hlength := (h.table.sound c cs hc).length
      have hnot : b ∉ cs.held := by
        intro hmem
        obtain ⟨i, hi⟩ := List.mem_iff_getElem?.mp (mem_held.mp hmem)
        exact hfinds.not_mem h.table hc hb hfind (List.mem_of_getElem? (h.table.entry c cs b bo i hc hb hi))
      refine ⟨htable, ?_, ?_, ?_, h.newBo, hnewCs⟩
      · intro b₁ bo₁ hb₁ hstatic hplain
        rcases setBo_bo (s := s) hb₁ with ⟨rfl, rfl⟩ | ⟨-, hb₁⟩
        · exact h.recorded b₁ bo hb hstatic hplain
        · exact h.recorded b₁ bo₁ hb₁ hstatic hplain
      · intro d cs₁ b₁ j reloc₁ hd hj hreloc₁
        rcases setCs_cs hd with ⟨rfl, rfl⟩ | ⟨hdc, hd⟩
        · rw [hbos] at hj
          rw [hrelocs] at hreloc₁
          rcases Nat.lt_or_ge j cs.relocsBo.length with hlt | hge
          · rw [List.getElem?_append_left hlt] at hj
            rw [List.getElem?_append_left (hlength ▸ hlt)] at hreloc₁
            have hne : b₁ ≠ b := by
              rintro rfl
              exact hnot (mem_held.mpr (List.mem_of_getElem? hj))
            rw [Log.write_of_ne (.inr hne)]
            exact h.entries d cs b₁ j reloc₁ hc hj hreloc₁
          · -- the new entry
            rw [List.getElem?_append_right hge, List.getElem?_singleton] at hj
            rw [List.getElem?_append_right (hlength ▸ hge), List.getElem?_singleton] at hreloc₁
            split at hj
            · cases hj
              split at hreloc₁
              · cases hreloc₁
                rw [Log.write_self, h.unwritten d cs b hc hnot]
                exact ⟨Plain.nil.concat hrequest fun _ h => (by cases h), rfl⟩
              · cases hreloc₁
            · cases hj
        · rw [Log.write_of_ne (.inl hdc)]
          exact h.entries d cs₁ b₁ j reloc₁ hd hj hreloc₁
      · intro d cs₁ b₁ hd hb₁
        rcases setCs_cs hd with ⟨rfl, rfl⟩ | ⟨hdc, hd⟩
        · rw [hheld, List.mem_append, List.mem_singleton, not_or] at hb₁
          rw [Log.write_of_ne (.inr hb₁.2)]
          exact h.unwritten d cs b₁ hc hb₁.1
        · rw [Log.write_of_ne (.inl hdc)]
          exact h.unwritten d cs₁ b₁ hd hb₁

/-! ## Runs with their log -/

/-- A state with the requests that led to it. -/
structure Tracked where
  state : State
  log : Log

def Tracked.Init (t : Tracked) : Prop := t.state.Init ∧ t.log = ⟨fun _ => [], fun _ _ => []⟩

def Tracked.Step (t t' : Tracked) : Prop := ∃ (op : Op) (ret : Int), op.run t.state = .ok (ret, t'.state) ∧
  t'.log = op.log t.state ret t.log ∧ op.KeepsTable t.state ∧ op.KeepsDomains t.state

theorem Op.run_logged {L : Log} {op : Op} (h : Logged L s) (htable : op.KeepsTable s) (hdomains : op.KeepsDomains s) :
    Ensures (op.run s) fun r => Logged (op.log s r.1 L) r.2 := by
  have hstill : ∀ {x : Except Fault State}, Ensures x (Still s) →
      Ensures (x >>= fun s' => pure ((0 : Int), s')) fun r => Logged L r.2 :=
    fun hx => hx.bind fun _ hs => .pure (h.still hs)
  cases op with
  | boOpen handle size isStatic => exact .ok (boOpen_logged h)
  | boRef b => exact hstill boRef_still
  | boUnref b => exact hstill (boUnref_still.mono fun _ hs => hs.1)
  | create ndw mem => exact .ok (csCreate_logged h)
  | csBegin c ndw mem => exact (csBegin_still).mono fun _ hs => h.still hs
  | writeDword c dword => exact (opWriteDword_still).mono fun _ hs => h.still hs
  | csEnd c => exact (csEnd_still).mono fun _ hs => h.still hs
  | writeReloc c b readDomain writeDomain flags mem =>
      refine (writeReloc_spec).mono ?_
      rintro ⟨ret, s'⟩ (⟨hret, hs⟩ | ⟨hret, cs, bo, cs', hc, hb, -, hrequest, hw⟩)
      · have hs : s' = s := hs
        rw [hs, Op.log, if_neg hret]
        exact h
      · rw [Op.log, if_pos hret]
        exact hw.logged h hc hb hrequest (htable cs bo hc hb) fun i reloc => hdomains cs bo i reloc hc hb
  | emit c result =>
      intro r hr
      obtain ⟨cs, hc, -⟩ := exists_of_bind_ok hr
      have hc := getCs_spec cs hc
      have hlog : (Op.emit c result).log s r.1 L = L.emit c cs := by rw [Op.log, hc]; rfl
      rw [hlog]
      exact (csEmit_logged h hc r hr).1
  | erase c =>
      refine Ensures.bind (P := fun s' => Logged (L.erase c) s') ?_ fun _ hs => .pure hs
      intro s' hs'
      obtain ⟨cs, hc, -⟩ := exists_of_bind_ok hs'
      exact (csErase_logged h (getCs_spec cs hc) s' hs').1
  | destroy c =>
      exact (csDestroy_logged h fun cs b hc hb => htable cs b hc (mem_held.mp hb)).bind fun _ hs => .pure hs
  | addPersistentBo c b readDomains writeDomain => exact hstill spaceAddPersistentBo_still
  | resetBos c => exact hstill spaceResetBos_still
  | spaceCheck c result => exact checkSpace_logged h
  | spaceCheckWithBo c b readDomains writeDomain result => exact checkSpace_logged h

theorem logged_of_runs {t : Tracked} (h : Runs Tracked.Init Tracked.Step t) : Logged t.log t.state := by
  refine Runs.induct (I := fun t => Logged t.log t.state) ?_ (fun t t' ht hstep => ?_) h
  · rintro ⟨_, _⟩ ⟨hs, rfl⟩
    obtain ⟨vramLimit, gartLimit, rfl⟩ := id hs
    exact ⟨.of_init hs, nofun, nofun, nofun, fun _ _ => rfl, fun _ _ _ => rfl⟩
  · obtain ⟨op, ret, hrun, hlog, htable, hdomains⟩ := hstep
    rw [hlog]
    exact Op.run_logged ht htable hdomains _ hrun

/-- The entry of a buffer and its record, after the same requests. -/
theorem Logged.agrees {L : Log} (h : Logged L s) (hc : s.cs c = some cs) (hb : s.bo b = some bo)
    (hstatic : bo.isStatic = false) {i : Nat} {reloc : Reloc} (hi : cs.relocsBo[i]? = some (some b))
    (hreloc : cs.relocs[i]? = some reloc) (hsame : L.checked b = L.written c b) :
    bo.spaceAccounted = reloc.readDomain <<< 16 ||| reloc.writeDomain := by
  obtain ⟨hplain, hlast⟩ := h.entries c cs b i reloc hc hi hreloc
  rw [h.recorded b bo hb hstatic (hsame ▸ hplain), hsame, packedLast, hlast]
  rfl

/-- While no request reads back what is written: every entry has exactly one domain, one that is written stays in its
    write domain, and it agrees with the accounting when both were given the same requests. -/
theorem reloc_domains {s : State} {t : Tracked} (h : Runs State.Init State.DomainStep s)
    (ht : Runs Tracked.Init Tracked.Step t) :
    (∀ c cs reloc, s.cs c = some cs → reloc ∈ cs.relocs → (reloc.readDomain = 0 ↔ reloc.writeDomain ≠ 0)) ∧
    (∀ s' c cs (i : Nat) reloc, Runs (· = s) State.WriteStep s' → s.cs c = some cs → cs.relocs[i]? = some reloc →
      reloc.writeDomain ≠ 0 → ∃ cs' reloc', s'.cs c = some cs' ∧ cs'.relocs[i]? = some reloc' ∧
        reloc'.handle = reloc.handle ∧ reloc'.readDomain = 0 ∧ reloc'.writeDomain = reloc.writeDomain) ∧
    ∀ c cs b bo (i : Nat) reloc, t.state.cs c = some cs → t.state.bo b = some bo →
      bo.isStatic = false → cs.relocsBo[i]? = some (some b) → cs.relocs[i]? = some reloc →
      t.log.checked b = t.log.written c b → bo.spaceAccounted = reloc.readDomain <<< 16 ||| reloc.writeDomain := by
  have hex := exclusive_of_runs h
  refine ⟨fun c cs reloc hc hreloc => hex c cs hc reloc hreloc, ?_, fun c cs b bo i reloc hc hb hstatic hi hreloc hsame =>
    (logged_of_runs ht).agrees hc hb hstatic hi hreloc hsame⟩
  intro s' c cs i reloc hruns hc hi hwrite
  have hread : reloc.readDomain = 0 := (hex c cs hc reloc (List.mem_of_getElem? hi)).mpr hwrite
  have hstays : WrittenAt c i reloc.handle reloc.writeDomain s' := by
    refine Runs.induct (fun _ h => ?_) (fun s₁ s₂ h₁ hstep => h₁.step hstep) hruns
    subst h
    exact ⟨cs, reloc, hc, hi, rfl, hread, rfl⟩
  exact hstays

def Op.checkDomains (s : State) : Op → Bool
  | .writeReloc c b readDomain _ _ _ =>
      match s.cs c, s.bo b with
      | some cs, some bo => ((cs.lookup bo).bind (cs.relocs[·]?)).all fun reloc => readDomain &&& reloc.writeDomain = 0
      | _, _ => true
  | _ => true

theorem Op.keepsDomains_of_check {op : Op} (h : op.checkDomains s = true) : op.KeepsDomains s := by
  cases op with
  | writeReloc c b readDomain writeDomain flags mem =>
      intro cs bo i reloc hc hb hfind hi
      simpa [Op.checkDomains, hc, hb, hfind, hi] using h
  | _ => trivial

/-- Calls one after the other, with their log. -/
def Tracked.playAll (ops : List Op) (s : State) : Option Tracked :=
  ops.foldlM (fun t op => if op.checkTable t.state && op.checkDomains t.state then
    (op.run t.state).toOption.map fun r => ⟨r.2, op.log t.state r.1 t.log⟩ else none) ⟨s, ⟨fun _ => [], fun _ _ => []⟩⟩

theorem Tracked.playAll_runs {ops : List Op} {t : Tracked} (hs : s.Init) (h : Tracked.playAll ops s = some t) :
    Runs Tracked.Init Tracked.Step t := by
  refine Runs.foldlM (fun t op t' _ hop => ?_) (.init ⟨hs, rfl⟩) h
  split at hop
  · next hcheck =>
    obtain ⟨htable, hdomains⟩ := Bool.and_eq_true_iff.mp hcheck
    obtain ⟨⟨ret, s'⟩, hrun, rfl⟩ := Option.map_eq_some_iff.mp hop
    exact ⟨op, ret, toOption_eq_some hrun, rfl, Op.keepsTable_of_check htable, Op.keepsDomains_of_check hdomains⟩
  · cases hop

theorem Tracked.domainRuns {t : Tracked} (h : Runs Tracked.Init Tracked.Step t) :
    Runs State.Init State.DomainStep t.state := by
  induction h with
  | init h => exact .init h.1
  | step _ h ih =>
      obtain ⟨op, ret, hrun, -, -, hdomains⟩ := h
      exact .step ih ⟨op, ret, hrun, hdomains⟩

/-- A buffer is read, and then written; each request is checked first. -/
def readThenWriteOps : List Op :=
  [.boOpen 7 4096 false, .create 16 plenty, .spaceCheckWithBo 0 0 4 0 0, .writeReloc 0 0 4 0 0 plenty,
    .spaceCheckWithBo 0 0 0 4 0, .writeReloc 0 0 0 4 0 plenty]

theorem reloc_domains_readThenWrite : ∃ t cs bo reloc, Runs Tracked.Init Tracked.Step t ∧ t.state.cs 0 = some cs ∧
    t.state.bo 0 = some bo ∧ cs.relocs = [reloc] ∧ reloc.writeDomain = 4 ∧ reloc.readDomain = 0 ∧
    bo.spaceAccounted = reloc.readDomain <<< 16 ||| reloc.writeDomain := by
  have hplay : (Tracked.playAll readThenWriteOps (initState 0x10000 0x10000)).bind (fun t =>
      (t.state.cs 0).bind fun cs => (t.state.bo 0).map fun bo =>
        (cs.relocsBo, cs.relocs.map (·.writeDomain), bo.isStatic, decide (t.log.checked 0 = t.log.written 0 0))) =
      some ([some 0], [4], false, true) := by
    decide +kernel
  obtain ⟨t, ht, hfields⟩ := Option.bind_eq_some_iff.mp hplay
  obtain ⟨cs, hcs, hfields⟩ := Option.bind_eq_some_iff.mp hfields
  obtain ⟨bo, hbo, hfields⟩ := Option.map_eq_some_iff.mp hfields
  simp only [Prod.mk.injEq, decide_eq_true_eq] at hfields
  obtain ⟨hbos, hrelocs, hstatic, hsame⟩ := hfields
  obtain ⟨reloc, hreloc, hwrite⟩ := List.map_eq_singleton_iff.mp hrelocs
  have hruns := Tracked.playAll_runs ⟨_, _, rfl⟩ ht
  obtain ⟨hexclusive, -, hagrees⟩ := reloc_domains (Tracked.domainRuns hruns) hruns
  refine ⟨t, cs, bo, reloc, hruns, hcs, hbo, hreloc, hwrite, ?_, ?_⟩
  · refine (hexclusive 0 cs reloc hcs (by rw [hreloc]; exact List.mem_singleton_self _)).mpr ?_
    rw [hwrite]
    decide
  · exact hagrees 0 cs 0 bo 0 reloc hcs hbo hstatic (by rw [hbos]; rfl) (by rw [hreloc]; rfl) hsame

/-- A buffer is written, and then read. -/
def readBackOps : List Op :=
  [.boOpen 7 4096 false, .create 16 plenty, .spaceCheckWithBo 0 0 0 4 0, .writeReloc 0 0 0 4 0 plenty,
    .spaceCheckWithBo 0 0 4 0 0, .writeReloc 0 0 4 0 0 plenty]

/-- Its entry has both domains, and the accounting the write domain only. -/
theorem reloc_domains_readBack : ∃ s cs bo reloc, Runs State.Init State.Step s ∧ s.cs 0 = some cs ∧ s.bo 0 = some bo ∧
    cs.relocs = [reloc] ∧ reloc.readDomain ≠ 0 ∧ reloc.writeDomain ≠ 0 ∧
    bo.spaceAccounted ≠ reloc.readDomain <<< 16 ||| reloc.writeDomain := by
  have hplay : (playAll (fun _ _ => true) readBackOps (initState 0x10000 0x10000)).bind (fun s =>
      (s.cs 0).bind fun cs => (s.bo 0).map fun bo => (cs.relocs, bo.spaceAccounted)) =
        some ([⟨7, 4, 4, 0⟩], 4) := by
    decide +kernel
  obtain ⟨s, hs, hfields⟩ := Option.bind_eq_some_iff.mp hplay
  obtain ⟨cs, hcs, hfields⟩ := Option.bind_eq_some_iff.mp hfields
  obtain ⟨bo, hbo, hfields⟩ := Option.map_eq_some_iff.mp hfields
  simp only [Prod.mk.injEq] at hfields
  have hruns : Runs State.Init State.Step s :=
    playAll_runs (fun s op ret s' _ _ hrun => ⟨op, ret, hrun⟩) ⟨_, _, rfl⟩ hs
  refine ⟨s, cs, bo, _, hruns, hcs, hbo, hfields.1, by decide, by decide, ?_⟩
  rw [hfields.2]
  decide

end LibDrm.Radeon
