/-
# `LibDrm.Radeon.Table` — the tables of relocations

A packet names a buffer by the index of its entry in the table of the stream, so a
buffer must not be entered twice.  Whether it is entered already is looked up in
`reloc_in_cs`, a set of stream ids: write adds the id of the stream to it, emit and
erase subtract it again.

`TableOk` is what keeps the two together:

    an id bit belongs to one stream, and a buffer has it exactly while the stream
    holds the buffer

It is broken in two ways.  `destroy` gives the id back and leaves the bits of the
buffers set, so that the next stream with this id adds the bit to a set that has it
and the carry takes it away.  And an entry is only found through the bit of its own
buffer: not in a stream whose id is 0, since more than 32 streams are alive, not after
emit before erase, and not by another buffer with the same handle.
-/
import LibDrm.Lib.Bits
import LibDrm.Radeon.Accounting

namespace LibDrm.Radeon

variable {s s' : State} {b : BoId} {c : CsId} {bo : Bo} {cs cs' : Cs}

/-! ## Ids -/

theorem ctz_spec {x : BitVec 32} (h : x ≠ 0) : x.getLsbD (ctz x) = true := by
  unfold ctz
  cases hfind : (List.range 32).find? fun i => x.getLsbD i with
  | some i => exact List.find?_some hfind
  | none =>
      obtain ⟨i, hi⟩ := Bits.exists_getLsbD h
      have := List.find?_eq_none.mp hfind i (by simpa using BitVec.lt_of_getLsbD hi)
      exact absurd hi this

/-- A new id has no bit in common with those that are taken, and it is taken then. -/
theorem generateId_spec (source : BitVec 32) :
    (∀ i, (generateId source).1.getLsbD i → source.getLsbD i = false) ∧
      ∀ i, (generateId source).2.getLsbD i = (source.getLsbD i || (generateId source).1.getLsbD i) := by
  unfold generateId
  split
  · next h =>
    refine ⟨fun i hi => ?_, fun i => by rw [BitVec.getLsbD_or]⟩
    have hne : ~~~source ≠ 0 := fun h0 => h (by rw [← BitVec.not_not (b := source), h0]; rfl)
    have hfree := ctz_spec hne
    have hctz : i = ctz (~~~source) := by
      simp only [getFirstZero, BitVec.getLsbD_shiftLeft, BitVec.getLsbD_one] at hi
      simp at hi
      omega
    rw [← hctz, BitVec.getLsbD_not] at hfree
    simpa using (Bool.and_eq_true_iff.mp hfree).2
  · exact ⟨fun i hi => by simp at hi, fun i => by simp⟩

/-! ## The invariant -/

def Cs.handles (cs : Cs) : List (BitVec 32) := cs.relocs.map (·.handle)

/-- What holds of the table of one stream by itself. -/
structure Cs.Sound (cs : Cs) : Prop where
  length : cs.relocsBo.length = cs.relocs.length
  short : cs.relocs.length < 2 ^ 28
  handles : cs.handles.Nodup
  held : cs.held.Nodup

structure TableOk (s : State) : Prop where
  newBo : ∀ b, s.freshBo ≤ b → s.bo b = none
  newCs : ∀ c, s.freshCs ≤ c → s.cs c = none
  opened : ∀ c cs b, s.cs c = some cs → b ∈ cs.held → b < s.freshBo
  sound : ∀ c cs, s.cs c = some cs → cs.Sound
  /-- The entry of a buffer has its handle. -/
  entry : ∀ c cs b bo (i : Nat), s.cs c = some cs → s.bo b = some bo → cs.relocsBo[i]? = some (some b) →
    cs.handles[i]? = some bo.handle
  /-- The ids are taken, and every bit by one stream. -/
  taken : ∀ c cs i, s.cs c = some cs → cs.id.getLsbD i → s.csIdSource.getLsbD i
  apart : ∀ c c' cs cs' i, s.cs c = some cs → s.cs c' = some cs' → cs.id.getLsbD i → cs'.id.getLsbD i → c = c'
  /-- A buffer has no bit that is free, and those of a stream exactly while the stream holds it. -/
  bits : ∀ b bo i, s.bo b = some bo → bo.relocInCs.getLsbD i → s.csIdSource.getLsbD i
  mask : ∀ c cs b bo i, s.cs c = some cs → s.bo b = some bo → cs.id.getLsbD i →
    (bo.relocInCs.getLsbD i = true ↔ b ∈ cs.held)

theorem mem_held : b ∈ cs.held ↔ some b ∈ cs.relocsBo := List.reduceOption_mem_iff

theorem TableOk.of_init (h : State.Init s) : TableOk s := by
  obtain ⟨vramLimit, gartLimit, rfl⟩ := h
  constructor <;> simp [initState]

/-- The same but for the domains and flags of the entries. -/
structure Similar (s s' : State) : Prop where
  freshBo : s'.freshBo = s.freshBo
  freshCs : s'.freshCs = s.freshCs
  source : s'.csIdSource = s.csIdSource
  bo : ∀ b bo', s'.bo b = some bo' →
    ∃ bo, s.bo b = some bo ∧ bo'.handle = bo.handle ∧ bo'.relocInCs = bo.relocInCs
  cs : ∀ c cs', s'.cs c = some cs' →
    ∃ cs, s.cs c = some cs ∧ cs'.handles = cs.handles ∧ cs'.relocsBo = cs.relocsBo ∧ cs'.id = cs.id

theorem Still.similar (h : Still s s') : Similar s s' := by
  refine ⟨h.freshBo, h.freshCs, h.source, fun b bo' hb => ?_, fun c cs' hc => ?_⟩
  · obtain ⟨bo, n, hb₀, rfl⟩ := h.bo b bo' hb
    exact ⟨bo, hb₀, rfl, rfl⟩
  · obtain ⟨cs, hc, hrelocs, hbos, hid⟩ := h.cs c cs' hc
    exact ⟨cs, hc, by rw [Cs.handles, hrelocs, Cs.handles], hbos, hid⟩

theorem Recounted.similar {f : BoId → BitVec 32 → BitVec 32} (h : Recounted f s s') : Similar s s' := by
  refine ⟨h.freshBo, h.freshCs, h.source, fun b bo' hb => ?_, fun c cs' hc => ?_⟩
  · obtain ⟨a, hbo, -⟩ := h.bo b
    rw [hb] at hbo
    obtain ⟨bo, hb₀, rfl⟩ := Option.map_eq_some_iff.mp hbo.symm
    exact ⟨bo, hb₀, rfl, rfl⟩
  · obtain ⟨bos, hcs, -⟩ := h.cs c
    rw [hc] at hcs
    obtain ⟨cs, hc₀, rfl⟩ := Option.map_eq_some_iff.mp hcs.symm
    exact ⟨cs, hc₀, rfl, rfl, rfl⟩

theorem TableOk.similar (hok : TableOk s) (h : Similar s s') : TableOk s' where
  newBo b hb := by
    rw [h.freshBo] at hb
    refine Option.eq_none_iff_forall_ne_some.mpr fun bo' hbo => ?_
    obtain ⟨bo, hbo, -⟩ := h.bo b bo' hbo
    rw [hok.newBo b hb] at hbo
    cases hbo
  newCs c hc := by
    rw [h.freshCs] at hc
    refine Option.eq_none_iff_forall_ne_some.mpr fun cs' hcs => ?_
    obtain ⟨cs, hcs, -⟩ := h.cs c cs' hcs
    rw [hok.newCs c hc] at hcs
    cases hcs
  opened c cs' b hc hb := by
    obtain ⟨cs, hc, -, hbos, -⟩ := h.cs c cs' hc
    rw [h.freshBo]
    exact hok.opened c cs b hc (by simpa only [Cs.held, hbos] using hb)
  sound c cs' hc := by
    obtain ⟨cs, hc, hhandles, hbos, -⟩ := h.cs c cs' hc
    have hsound := hok.sound c cs hc
    have hlength : cs'.relocs.length = cs.relocs.length := by
      simpa only [Cs.handles, List.length_map] using congrArg List.length hhandles
    exact ⟨by rw [hbos, hlength, hsound.length], by rw [hlength]; exact hsound.short,
      by rw [hhandles]; exact hsound.handles, by rw [Cs.held, hbos]; exact hsound.held⟩
  entry c cs' b bo' i hc hb hi := by
    obtain ⟨cs, hc, hhandles, hbos, -⟩ := h.cs c cs' hc
    obtain ⟨bo, hb, hhandle, -⟩ := h.bo b bo' hb
    rw [hhandles, hhandle]
    exact hok.entry c cs b bo i hc hb (by rw [← hbos, hi])
  taken c cs' i hc hi := by
    obtain ⟨cs, hc, -, -, hid⟩ := h.cs c cs' hc
    rw [h.source]
    exact hok.taken c cs i hc (by rwa [← hid])
  apart c c' cs₁ cs₂ i hc hc' hi hi' := by
    obtain ⟨cs, hc, -, -, hid⟩ := h.cs c cs₁ hc
    obtain ⟨cs', hc', -, -, hid'⟩ := h.cs c' cs₂ hc'
    exact hok.apart c c' cs cs' i hc hc' (by rwa [← hid]) (by rwa [← hid'])
  bits b bo' i hb hi := by
    obtain ⟨bo, hb, -, hbits⟩ := h.bo b bo' hb
    rw [h.source]
    exact hok.bits b bo i hb (by rwa [← hbits])
  mask c cs' b bo' i hc hb hi := by
    obtain ⟨cs, hc, -, hbos, hid⟩ := h.cs c cs' hc
    obtain ⟨bo, hb, -, hbits⟩ := h.bo b bo' hb
    rw [hbits, Cs.held, hbos]
    exact hok.mask c cs b bo i hc hb (by rwa [← hid])

/-! ## What the calls keep -/

/-- The buffers of a stream leave it, and lose the bits of its id. -/
theorem TableOk.emptied {f : Bo → Bo} {s₁ : State} (hok : TableOk s) (hc : s.cs c = some cs)
    (hret : Retired f cs.held s s₁) (hhandle : ∀ bo, (f bo).handle = bo.handle)
    (hbits : ∀ bo, (f bo).relocInCs = bo.relocInCs - cs.id) (hsound : cs'.Sound) (hheld : cs'.held = [])
    (hid : cs'.id = cs.id) : TableOk (s₁.setCs c cs') := by
  have hrest := hret.rest
  -- what is left of the bits of a buffer
  have hbo : ∀ b bo', s₁.bo b = some bo' → ∃ bo, s.bo b = some bo ∧ bo'.handle = bo.handle ∧
      ∀ i, bo'.relocInCs.getLsbD i = (bo.relocInCs.getLsbD i && !(decide (b ∈ cs.held) && cs.id.getLsbD i)) := by
    intro b bo' hb'
    obtain ⟨bo, n, hb, rfl⟩ := hret.bo b bo' hb'
    by_cases hmem : b ∈ cs.held
    · refine ⟨bo, hb, by simp [hmem, Bo.counted, hhandle], fun i => ?_⟩
      have hsub := Bits.getLsbD_sub (x := bo.relocInCs) (y := cs.id)
        (fun j hj => (hok.mask c cs b bo j hc hb hj).mpr hmem) i
      simpa [hmem, Bo.counted, hbits] using hsub
    · exact ⟨bo, hb, by simp [hmem, Bo.counted], fun i => by simp [hmem, Bo.counted]⟩
  have hcs : ∀ d cs₁, (s₁.setCs c cs').cs d = some cs₁ → d = c ∧ cs₁ = cs' ∨ d ≠ c ∧ s.cs d = some cs₁ := by
    intro d cs₁ hd
    rcases setCs_cs hd with h | ⟨hdc, hd⟩
    · exact .inl h
    · exact .inr ⟨hdc, by rw [hrest] at hd; exact hd⟩
  have hsource : (s₁.setCs c cs').csIdSource = s.csIdSource := by rw [hrest]; rfl
  have hfreshBo : (s₁.setCs c cs').freshBo = s.freshBo := by rw [hrest]; rfl
  have hfreshCs : (s₁.setCs c cs').freshCs = s.freshCs := by rw [hrest]; rfl
  -- a stream of the new state has the id that a stream of the old one had
  have hids : ∀ d cs₁, (s₁.setCs c cs').cs d = some cs₁ → ∃ cs₂, s.cs d = some cs₂ ∧ cs₁.id = cs₂.id := by
    intro d cs₁ hd
    rcases hcs d cs₁ hd with ⟨rfl, rfl⟩ | ⟨-, hd⟩
    · exact ⟨cs, hc, hid⟩
    · exact ⟨cs₁, hd, rfl⟩
  refine ⟨?_, ?_, ?_, ?_, ?_, ?_, ?_, ?_, ?_⟩
  · intro b hb
    rw [hfreshBo] at hb
    refine Option.eq_none_iff_forall_ne_some.mpr fun bo' hb' => ?_
    obtain ⟨bo, hb₀, -⟩ := hbo b bo' hb'
    rw [hok.newBo b hb] at hb₀
    cases hb₀
  · intro d hd
    rw [hfreshCs] at hd
    refine Option.eq_none_iff_forall_ne_some.mpr fun cs₁ hd' => ?_
    obtain ⟨cs₂, hd₂, -⟩ := hids d cs₁ hd'
    rw [hok.newCs d hd] at hd₂
    cases hd₂
  · intro d cs₁ b hd hb
    rw [hfreshBo]
    rcases hcs d cs₁ hd with ⟨rfl, rfl⟩ | ⟨-, hd⟩
    · simp [hheld] at hb
    · exact hok.opened d cs₁ b hd hb
  · intro d cs₁ hd
    rcases hcs d cs₁ hd with ⟨rfl, rfl⟩ | ⟨-, hd⟩
    · exact hsound
    · exact hok.sound d cs₁ hd
  · intro d cs₁ b bo' i hd hb hi
    obtain ⟨bo, hb, hhandle, -⟩ := hbo b bo' hb
    rcases hcs d cs₁ hd with ⟨rfl, rfl⟩ | ⟨-, hd⟩
    · have hmem := (mem_held).mpr (List.mem_of_getElem? hi)
      simp [hheld] at hmem
    · rw [hhandle]
      exact hok.entry d cs₁ b bo i hd hb hi
  · intro d cs₁ i hd hi
    obtain ⟨cs₂, hd, hid₂⟩ := hids d cs₁ hd
    rw [hsource]
    exact hok.taken d cs₂ i hd (by rwa [← hid₂])
  · intro d d' cs₁ cs₁' i hd hd' hi hi'
    obtain ⟨cs₂, hd, hid₂⟩ := hids d cs₁ hd
    obtain ⟨cs₂', hd', hid₂'⟩ := hids d' cs₁' hd'
    exact hok.apart d d' cs₂ cs₂' i hd hd' (by rwa [← hid₂]) (by rwa [← hid₂'])
  · intro b bo' i hb hi
    obtain ⟨bo, hb, -, hbits⟩ := hbo b bo' hb
    rw [hsource]
    rw [hbits] at hi
    exact hok.bits b bo i hb (Bool.and_eq_true_iff.mp hi).1
  · intro d cs₁ b bo' i hd hb' hi
    obtain ⟨bo, hb, -, hbits⟩ := hbo b bo' hb'
    rw [hbits]
    rcases hcs d cs₁ hd with ⟨rfl, rfl⟩ | ⟨hdc, hd⟩
    · rw [hid] at hi
      have := hok.mask d cs b bo i hc hb hi
      simp [hheld, hi, this]
    · have hapart : cs.id.getLsbD i = false := by
        refine Bool.eq_false_iff.mpr fun hi' => hdc ?_
        exact hok.apart d c cs₁ cs i hd hc hi hi'
      simpa [hapart] using hok.mask d cs₁ b bo i hd hb hi

theorem csEmit_table {result : Int} (hok : TableOk s) : Ensures (csEmit c result s) fun r => TableOk r.2 := by
  refine (csEmit_spec fun cs hc => (hok.sound c cs hc).held).mono ?_
  rintro ⟨_, _⟩ ⟨-, cs, cs', s₁, hc, -, hret, rfl, hrelocs, hbos, hid, -⟩
  have hsound := hok.sound c cs hc
  have hheld : cs'.held = [] := by simp [Cs.held, hbos]
  have hsound' : cs'.Sound :=
    ⟨by rw [hbos, hrelocs, List.length_map, hsound.length], by rw [hrelocs]; exact hsound.short,
      by rw [Cs.handles, hrelocs]; exact hsound.handles, by simp [hheld]⟩
  have h := hok.emptied hc hret (fun _ => rfl) (fun _ => rfl) hsound' hheld hid
  exact ⟨h.newBo, h.newCs, h.opened, h.sound, h.entry, h.taken, h.apart, h.bits, h.mask⟩

theorem csErase_table (hok : TableOk s) : Ensures (csErase c s) TableOk := by
  refine (csErase_spec fun cs hc => (hok.sound c cs hc).held).mono ?_
  rintro _ ⟨cs, cs', s₁, hc, hret, rfl, hrelocs, hbos, hid, -⟩
  have hheld : cs'.held = [] := by simp [Cs.held, hbos]
  have hsound : cs'.Sound :=
    ⟨by simp [hbos, hrelocs], by simp [hrelocs], by simp [Cs.handles, hrelocs], by simp [hheld]⟩
  exact hok.emptied hc hret (fun _ => rfl) (fun _ => rfl) hsound hheld hid

theorem boOpen_table {handle size : BitVec 32} {isStatic : Bool} (hok : TableOk s) :
    TableOk (boOpen handle size isStatic s).2 := by
  have hbo : ∀ b bo, (boOpen handle size isStatic s).2.bo b = some bo →
      b = s.freshBo ∧ bo.relocInCs = 0 ∨ s.bo b = some bo := by
    intro b bo hb
    rcases setBo_bo hb with ⟨rfl, rfl⟩ | ⟨-, hb⟩
    · exact .inl ⟨rfl, rfl⟩
    · exact .inr hb
  refine ⟨?_, hok.newCs, ?_, hok.sound, ?_, hok.taken, hok.apart, ?_, ?_⟩
  · intro b hb
    have hb : s.freshBo + 1 ≤ b := hb
    refine Option.eq_none_iff_forall_ne_some.mpr fun bo hbo' => ?_
    rcases hbo b bo hbo' with ⟨rfl, -⟩ | hb'
    · exact Nat.not_succ_le_self _ hb
    · rw [hok.newBo b (Nat.le_of_succ_le hb)] at hb'
      cases hb'
  · intro c cs b hc hb
    exact Nat.lt_succ_of_lt (hok.opened c cs b hc hb)
  · intro c cs b bo i hc hb hi
    rcases hbo b bo hb with ⟨rfl, -⟩ | hb
    · exact absurd (hok.opened c cs _ hc (mem_held.mpr (List.mem_of_getElem? hi))) (lt_irrefl _)
    · exact hok.entry c cs b bo i hc hb hi
  · intro b bo i hb hi
    rcases hbo b bo hb with ⟨-, hzero⟩ | hb
    · simp [hzero] at hi
    · exact hok.bits b bo i hb hi
  · intro c cs b bo i hc hb hi
    rcases hbo b bo hb with ⟨rfl, hzero⟩ | hb
    · have := mt (hok.opened c cs s.freshBo hc) (lt_irrefl _)
      simpa [hzero] using this
    · exact hok.mask c cs b bo i hc hb hi

/-- A new id is none that a stream has, and no buffer has it. -/
theorem TableOk.created {source : BitVec 32} (hok : TableOk s) (hfree : ∀ i, cs.id.getLsbD i → s.csIdSource.getLsbD i = false)
    (hsource : ∀ i, source.getLsbD i = (s.csIdSource.getLsbD i || cs.id.getLsbD i)) (hrelocs : cs.relocs = [])
    (hbos : cs.relocsBo = []) :
    TableOk { s.setCs s.freshCs cs with freshCs := s.freshCs + 1, csIdSource := source } := by
  have hcs : ∀ d cs₁, (s.setCs s.freshCs cs).cs d = some cs₁ →
      d = s.freshCs ∧ cs₁ = cs ∨ d < s.freshCs ∧ s.cs d = some cs₁ := by
    intro d cs₁ hd
    rcases setCs_cs hd with h | ⟨-, hd⟩
    · exact .inl h
    · refine .inr ⟨Nat.lt_of_not_le fun hle => ?_, hd⟩
      rw [hok.newCs d hle] at hd
      cases hd
  have hheld : cs.held = [] := by simp [Cs.held, hbos]
  refine ⟨hok.newBo, ?_, ?_, ?_, ?_, ?_, ?_, ?_, ?_⟩
  · intro d hd
    have hd : s.freshCs + 1 ≤ d := hd
    refine Option.eq_none_iff_forall_ne_some.mpr fun cs₁ hd' => ?_
    rcases hcs d cs₁ hd' with ⟨rfl, -⟩ | ⟨hlt, -⟩
    · exact Nat.not_succ_le_self _ hd
    · exact absurd (Nat.lt_of_lt_of_le hlt (Nat.le_of_succ_le hd)) (lt_irrefl _)
  · intro d cs₁ b hd hb
    rcases hcs d cs₁ hd with ⟨-, rfl⟩ | ⟨-, hd⟩
    · simp [hheld] at hb
    · exact hok.opened d cs₁ b hd hb
  · intro d cs₁ hd
    rcases hcs d cs₁ hd with ⟨-, rfl⟩ | ⟨-, hd⟩
    · exact ⟨by simp [hrelocs, hbos], by simp [hrelocs], by simp [Cs.handles, hrelocs], by simp [hheld]⟩
    · exact hok.sound d cs₁ hd
  · intro d cs₁ b bo i hd hb hi
    rcases hcs d cs₁ hd with ⟨-, rfl⟩ | ⟨-, hd⟩
    · simp [hbos] at hi
    · exact hok.entry d cs₁ b bo i hd hb hi
  · intro d cs₁ i hd hi
    rw [hsource]
    rcases hcs d cs₁ hd with ⟨-, rfl⟩ | ⟨-, hd⟩
    · simp [hi]
    · simp [hok.taken d cs₁ i hd hi]
  · intro d d' cs₁ cs₁' i hd hd' hi hi'
    rcases hcs d cs₁ hd with ⟨rfl, rfl⟩ | ⟨-, hd⟩
    · rcases hcs d' cs₁' hd' with ⟨rfl, -⟩ | ⟨-, hd'⟩
      · rfl
      · have := hok.taken d' cs₁' i hd' hi'
        simp [hfree i hi] at this
    · rcases hcs d' cs₁' hd' with ⟨rfl, rfl⟩ | ⟨-, hd'⟩
      · have := hok.taken d cs₁ i ‹s.cs d = some cs₁› hi
        simp [hfree i hi'] at this
      · exact hok.apart d d' cs₁ cs₁' i hd hd' hi hi'
  · intro b bo i hb hi
    simp [hsource, hok.bits b bo i hb hi]
  · intro d cs₁ b bo i hd hb hi
    rcases hcs d cs₁ hd with ⟨-, rfl⟩ | ⟨-, hd⟩
    · have := mt (hok.bits b bo i hb) (by simp [hfree i hi])
      simpa [hheld] using this
    · exact hok.mask d cs₁ b bo i hd hb hi

theorem csCreate_table {ndw : Nat} {mem : Nat → Option Nat} (hok : TableOk s) : TableOk (csCreate ndw mem s).2 := by
  obtain ⟨hfree, hsource⟩ := generateId_spec s.csIdSource
  rcases csCreate_spec ndw mem s with h | h | ⟨cs, h, hid, hrelocs, hbos, -⟩
  · rwa [h]
  · rw [h]
    refine ⟨hok.newBo, hok.newCs, hok.opened, hok.sound, hok.entry, ?_, hok.apart, ?_, hok.mask⟩
    · intro c cs i hc hi
      simp [hsource, hok.taken c cs i hc hi]
    · intro b bo i hb hi
      simp [hsource, hok.bits b bo i hb hi]
  · rw [h]
    exact hok.created (by rwa [hid]) (by rwa [hid]) hrelocs hbos

/-- The id is free again, and no buffer has it if none was held. -/
theorem csDestroy_table (hok : TableOk s) (hempty : ∀ cs b, s.cs c = some cs → b ∈ cs.held → cs.id = 0) :
    Ensures (csDestroy c s) TableOk := by
  refine (getCs_spec).bind fun cs hc => .pure ?_
  have hsource : ∀ i, (freeId cs.id s.csIdSource).getLsbD i = (s.csIdSource.getLsbD i && !cs.id.getLsbD i) := by
    intro i
    rw [freeId, BitVec.getLsbD_and, BitVec.getLsbD_not]
    cases hs : s.csIdSource.getLsbD i with
    | false => simp
    | true => simp [BitVec.lt_of_getLsbD hs]
  have hcs : ∀ d cs₁, Function.update s.cs c none d = some cs₁ → d ≠ c ∧ s.cs d = some cs₁ := by
    intro d cs₁ hd
    rcases eq_or_ne d c with rfl | hdc
    · simp at hd
    · exact ⟨hdc, by simpa [hdc] using hd⟩
  refine ⟨hok.newBo, ?_, ?_, ?_, ?_, ?_, ?_, ?_, ?_⟩
  · intro d hd
    refine Option.eq_none_iff_forall_ne_some.mpr fun cs₁ hd' => ?_
    have hd' := (hcs d cs₁ hd').2
    rw [hok.newCs d hd] at hd'
    cases hd'
  · exact fun d cs₁ b hd hb => hok.opened d cs₁ b (hcs d cs₁ hd).2 hb
  · exact fun d cs₁ hd => hok.sound d cs₁ (hcs d cs₁ hd).2
  · exact fun d cs₁ b bo i hd hb hi => hok.entry d cs₁ b bo i (hcs d cs₁ hd).2 hb hi
  · intro d cs₁ i hd hi
    obtain ⟨hdc, hd⟩ := hcs d cs₁ hd
    have hother : cs.id.getLsbD i = false :=
      Bool.eq_false_iff.mpr fun hi' => hdc (hok.apart d c cs₁ cs i hd hc hi hi')
    simp [hsource, hok.taken d cs₁ i hd hi, hother]
  · exact fun d d' cs₁ cs₁' i hd hd' => hok.apart d d' cs₁ cs₁' i (hcs d cs₁ hd).2 (hcs d' cs₁' hd').2
  · intro b bo i hb hi
    have hother : cs.id.getLsbD i = false := by
      refine Bool.eq_false_iff.mpr fun hi' => ?_
      have hmem := (hok.mask c cs b bo i hc hb hi').mp hi
      simp [hempty cs b hc hmem] at hi'
    simp [hsource, hok.bits b bo i hb hi, hother]
  · exact fun d cs₁ b bo i hd hb hi => hok.mask d cs₁ b bo i (hcs d cs₁ hd).2 hb hi

/-- If the handle is in the table, its entry is that of this buffer, which is still held, in a stream that has an
    id. -/
def Cs.Finds (b : BoId) (bo : Bo) (cs : Cs) : Prop :=
  ∀ i : Nat, cs.handles[i]? = some bo.handle → cs.id ≠ 0 ∧ cs.relocsBo[i]? = some (some b)

/-- Then the buffer is not in the table if it was not found. -/
theorem Cs.Finds.not_mem (hok : TableOk s) (hc : s.cs c = some cs) (hb : s.bo b = some bo) (hfinds : cs.Finds b bo)
    (hfind : cs.lookup bo = none) : bo.handle ∉ cs.handles := by
  intro hmem
  obtain ⟨i, hi⟩ := List.mem_iff_getElem?.mp hmem
  obtain ⟨hid, hbos⟩ := hfinds i hi
  -- the buffer has a bit of the id, so the table is searched
  obtain ⟨j, hj⟩ := Bits.exists_getLsbD hid
  have hbit := (hok.mask c cs b bo j hc hb hj).mpr (mem_held.mpr (List.mem_of_getElem? hbos))
  have hand : bo.relocInCs &&& cs.id ≠ 0 := fun h => Bits.and_eq_zero_iff.mp h j hbit hj
  rw [Cs.lookup, if_pos hand] at hfind
  rw [Cs.handles, List.getElem?_map, Option.map_eq_some_iff] at hi
  obtain ⟨reloc, hi, hhandle⟩ := hi
  exact findReloc_none hfind hi hhandle

theorem handles_set {i : Nat} {reloc reloc' : Reloc} (hi : cs.relocs[i]? = some reloc)
    (hhandle : reloc'.handle = reloc.handle) (hrelocs : cs'.relocs = cs.relocs.set i reloc') :
    cs'.handles = cs.handles := by
  rw [Cs.handles, Cs.handles, hrelocs, List.map_set, hhandle]
  refine List.ext_getElem? fun j => ?_
  rw [List.getElem?_set]
  split
  · next h =>
    subst h
    obtain ⟨hlt, rfl⟩ := List.getElem?_eq_some_iff.mp hi
    simp [hlt]
  · rfl

theorem updateDomains_handle {readDomain writeDomain flags : BitVec 32} {reloc reloc' : Reloc}
    (h : updateDomains readDomain writeDomain reloc = some reloc') : (updateFlags flags reloc').handle = reloc.handle := by
  unfold updateDomains at h
  split at h
  · cases h
    rfl
  · split at h
    · cases h
      rfl
    · split at h
      · cases h
      · split at h
        · cases h
        · cases h
          rfl

/-- A buffer is added to a stream that did not hold it. -/
theorem TableOk.added {bo' : Bo} (hok : TableOk s) (hc : s.cs c = some cs) (hb : s.bo b = some bo) (hnot : b ∉ cs.held)
    (hbits : bo'.relocInCs = bo.relocInCs + cs.id) (hid : cs'.id = cs.id) (hhandle : bo'.handle = bo.handle)
    (hhandles : cs'.handles = cs.handles ++ [bo.handle]) (hbos : cs'.relocsBo = cs.relocsBo ++ [some b])
    (hsound : cs'.Sound) : TableOk ((s.setBo b bo').setCs c cs') := by
  have hheld : cs'.held = cs.held ++ [b] := by simp [Cs.held, hbos, List.reduceOption_append]
  -- it had no bit of the id
  have hadd : ∀ i, bo'.relocInCs.getLsbD i = (bo.relocInCs.getLsbD i || cs.id.getLsbD i) := by
    rw [hbits]
    exact Bits.getLsbD_add fun i hi hid => hnot ((hok.mask c cs b bo i hc hb hid).mp hi)
  have hids : ∀ d cs₁, ((s.setBo b bo').setCs c cs').cs d = some cs₁ → ∃ cs₀, s.cs d = some cs₀ ∧ cs₁.id = cs₀.id := by
    intro d cs₁ hd
    rcases setCs_cs hd with ⟨rfl, rfl⟩ | ⟨-, hd⟩
    · exact ⟨cs, hc, hid⟩
    · exact ⟨cs₁, hd, rfl⟩
  refine ⟨?_, ?_, ?_, ?_, ?_, ?_, ?_, ?_, ?_⟩
  · intro d hd
    refine Option.eq_none_iff_forall_ne_some.mpr fun bo₁ hd' => ?_
    have hnone := hok.newBo d hd
    rcases setBo_bo hd' with ⟨rfl, -⟩ | ⟨-, hd'⟩
    · rw [hb] at hnone
      cases hnone
    · rw [hnone] at hd'
      cases hd'
  · intro d hd
    refine Option.eq_none_iff_forall_ne_some.mpr fun cs₁ hd' => ?_
    obtain ⟨cs₀, hd₀, -⟩ := hids d cs₁ hd'
    rw [hok.newCs d hd] at hd₀
    cases hd₀
  · intro d cs₁ b₁ hd hb₁
    rcases setCs_cs hd with ⟨rfl, rfl⟩ | ⟨-, hd⟩
    · rw [hheld, List.mem_append, List.mem_singleton] at hb₁
      rcases hb₁ with hb₁ | rfl
      · exact hok.opened d cs b₁ hc hb₁
      · refine Nat.lt_of_not_le fun hle => ?_
        rw [hok.newBo b₁ hle] at hb
        cases hb
    · exact hok.opened d cs₁ b₁ hd hb₁
  · intro d cs₁ hd
    rcases setCs_cs hd with ⟨rfl, rfl⟩ | ⟨-, hd⟩
    · exact hsound
    · exact hok.sound d cs₁ hd
  · intro d cs₁ b₁ bo₁ i hd hb₁ hi
    obtain ⟨bo₀, hb₀, hhandle₀⟩ : ∃ bo₀, s.bo b₁ = some bo₀ ∧ bo₁.handle = bo₀.handle := by
      rcases setBo_bo hb₁ with ⟨rfl, rfl⟩ | ⟨-, hb₁⟩
      · exact ⟨bo, hb, hhandle⟩
      · exact ⟨bo₁, hb₁, rfl⟩
    rw [hhandle₀]
    rcases setCs_cs hd with ⟨rfl, rfl⟩ | ⟨-, hd⟩
    · have hlength : cs.handles.length = cs.relocsBo.length := by
        simp [Cs.handles, (hok.sound d cs hc).length]
      rw [hbos] at hi
      rw [hhandles]
      rcases Nat.lt_or_ge i cs.relocsBo.length with hlt | hge
      · rw [List.getElem?_append_left hlt] at hi
        rw [List.getElem?_append_left (hlength ▸ hlt)]
        exact hok.entry d cs b₁ bo₀ i hc hb₀ hi
      · rw [List.getElem?_append_right hge, List.getElem?_singleton] at hi
        rw [List.getElem?_append_right (hlength ▸ hge), List.getElem?_singleton, hlength]
        split at hi
        · next hlast =>
          cases hi
          cases hb.symm.trans hb₀
          rw [if_pos hlast]
        · cases hi
    · exact hok.entry d cs₁ b₁ bo₀ i hd hb₀ hi
  · intro d cs₁ i hd hi
    obtain ⟨cs₀, hd₀, hid₀⟩ := hids d cs₁ hd
    exact hok.taken d cs₀ i hd₀ (by rwa [← hid₀])
  · intro d d' cs₁ cs₁' i hd hd' hi hi'
    obtain ⟨cs₀, hd₀, hid₀⟩ := hids d cs₁ hd
    obtain ⟨cs₀', hd₀', hid₀'⟩ := hids d' cs₁' hd'
    exact hok.apart d d' cs₀ cs₀' i hd₀ hd₀' (by rwa [← hid₀]) (by rwa [← hid₀'])
  · intro d bo₁ i hd hi
    rcases setBo_bo hd with ⟨rfl, rfl⟩ | ⟨-, hd⟩
    · rw [hadd, Bool.or_eq_true] at hi
      exact hi.elim (hok.bits d bo i hb) (hok.taken c cs i hc)
    · exact hok.bits d bo₁ i hd hi
  · intro d cs₁ b₁ bo₁ i hd hb₁ hi
    rcases setCs_cs hd with ⟨rfl, rfl⟩ | ⟨hdc, hd⟩
    · rw [hid] at hi
      rw [hheld, List.mem_append, List.mem_singleton]
      rcases setBo_bo hb₁ with ⟨rfl, rfl⟩ | ⟨hne, hb₁⟩
      · simp [hadd, hi]
      · simpa [hne] using hok.mask d cs b₁ bo₁ i hc hb₁ hi
    · have hother : cs.id.getLsbD i = false :=
        Bool.eq_false_iff.mpr fun hi' => hdc (hok.apart d c cs₁ cs i hd hc hi hi')
      rcases setBo_bo hb₁ with ⟨rfl, rfl⟩ | ⟨-, hb₁⟩
      · rw [hadd, hother, Bool.or_false]
        exact hok.mask d cs₁ b₁ bo i hd hb hi
      · exact hok.mask d cs₁ b₁ bo₁ i hd hb₁ hi

theorem Written.table {readDomain writeDomain flags : BitVec 32} (hok : TableOk s) (hc : s.cs c = some cs)
    (hb : s.bo b = some bo) (hfinds : cs.Finds b bo) (h : Written c b readDomain writeDomain flags s cs bo cs' s') :
    TableOk s' := by
  have hsound := hok.sound c cs hc
  cases h with
  | @again i reloc reloc' _ hfind hi hreloc hrelocs hbos _ hid _ =>
      have hhandle : (updateFlags flags reloc').handle = reloc.handle := updateDomains_handle hreloc
      refine hok.similar ⟨rfl, rfl, rfl, fun _ bo h => ⟨bo, h, rfl, rfl⟩, fun d cs₁ hd => ?_⟩
      rcases setCs_cs hd with ⟨rfl, rfl⟩ | ⟨-, hd⟩
      · exact ⟨cs, hc, handles_set hi hhandle hrelocs, hbos, hid⟩
      · exact ⟨cs₁, hd, rfl, rfl, rfl⟩
  | new hfind hfits hrelocs hbos _ hid _ =>
      have hmem := hfinds.not_mem hok hc hb hfind
      have hnot : b ∉ cs.held := by
        intro h
        obtain ⟨i, hi⟩ := List.mem_iff_getElem?.mp (mem_held.mp h)
        exact hmem (List.mem_of_getElem? (hok.entry c cs b bo i hc hb hi))
      have hhandles : cs'.handles = cs.handles ++ [bo.handle] := by simp [Cs.handles, hrelocs]
      have hheld : cs'.held = cs.held ++ [b] := by simp [Cs.held, hbos, List.reduceOption_append]
      have hsound' : cs'.Sound := by
        refine ⟨by simp [hbos, hrelocs, hsound.length], by simpa [hrelocs] using hfits, ?_, ?_⟩
        · rw [hhandles, ← List.concat_eq_append]
          exact hsound.handles.concat hmem
        · rw [hheld, ← List.concat_eq_append]
          exact hsound.held.concat hnot
      exact hok.added hc hb hnot rfl hid rfl hhandles hbos hsound'

/-! ## Runs -/

/-- Where a call finds what it has to find: a relocation whose handle is in the table finds its entry, and a stream
    that is destroyed holds no buffers. -/
def Op.KeepsTable : Op → State → Prop
  | .writeReloc c b _ _ _ _, s => ∀ cs bo, s.cs c = some cs → s.bo b = some bo → cs.Finds b bo
  | .destroy c, s => ∀ cs b, s.cs c = some cs → some b ∈ cs.relocsBo → cs.id = 0
  | _, _ => True

def State.TableStep (s s' : State) : Prop := ∃ (op : Op) (ret : Int), op.run s = .ok (ret, s') ∧ op.KeepsTable s

theorem writeReloc_table {readDomain writeDomain flags : BitVec 32} {mem : Nat → Option Nat} (hok : TableOk s)
    (hfinds : ∀ cs bo, s.cs c = some cs → s.bo b = some bo → cs.Finds b bo) :
    Ensures (writeReloc c b readDomain writeDomain flags mem s) fun r => TableOk r.2 := by
  refine (writeReloc_spec).mono ?_
  rintro r (⟨-, hr⟩ | ⟨-, cs, bo, cs', hc, hb, -, -, hw⟩)
  · rwa [hr]
  · exact hw.table hok hc hb (hfinds cs bo hc hb)

theorem checkSpace_table {tmpBo : Option SpaceCheck} {result : Int} (hok : TableOk s) :
    Ensures (checkSpaceInternal (flushCs c result) c tmpBo s) fun r => TableOk r.2 := by
  refine checkSpaceInternal_keeps (fun s hok => ?_) (fun s hok => ?_) hok
  · refine (doSpaceCheck_spec).mono ?_
    rintro r ⟨cs, -, ⟨-, h, -⟩ | ⟨-, -, -, h⟩ | ⟨-, l, z, -, -, h, -⟩⟩
    · exact hok.similar h.similar
    · rwa [h]
    · exact hok.similar h.similar
  · exact (csEmit_table hok).bind fun r hr => csErase_table hr

theorem Op.run_table {op : Op} (hok : TableOk s) (hop : op.KeepsTable s) : Ensures (op.run s) fun r => TableOk r.2 := by
  have hstill : ∀ {x : Except Fault State}, Ensures x (Still s) →
      Ensures (x >>= fun s' => pure ((0 : Int), s')) fun r => TableOk r.2 :=
    fun hx => hx.bind fun _ h => .pure (hok.similar h.similar)
  cases op with
  | boOpen handle size isStatic => exact .ok (boOpen_table hok)
  | boRef b => exact hstill boRef_still
  | boUnref b => exact hstill (boUnref_still.mono fun _ h => h.1)
  | create ndw mem => exact .ok (csCreate_table hok)
  | csBegin c ndw mem => exact (csBegin_still).mono fun _ h => hok.similar h.similar
  | writeDword c dword => exact (opWriteDword_still).mono fun _ h => hok.similar h.similar
  | csEnd c => exact (csEnd_still).mono fun _ h => hok.similar h.similar
  | writeReloc c b readDomain writeDomain flags mem => exact writeReloc_table hok hop
  | emit c result => exact csEmit_table hok
  | erase c => exact (csErase_table hok).bind fun _ h => .pure h
  | destroy c =>
      exact (csDestroy_table hok fun cs b hc hb => hop cs b hc (mem_held.mp hb)).bind fun _ h => .pure h
  | addPersistentBo c b readDomains writeDomain => exact hstill spaceAddPersistentBo_still
  | resetBos c => exact hstill spaceResetBos_still
  | spaceCheck c result => exact checkSpace_table hok
  | spaceCheckWithBo c b readDomains writeDomain result => exact checkSpace_table hok

theorem tableOk_of_runs (h : Runs State.Init State.TableStep s) : TableOk s := by
  refine Runs.induct (fun s hs => .of_init hs) (fun s s' hok hstep => ?_) h
  obtain ⟨op, ret, hrun, hop⟩ := hstep
  exact Op.run_table hok hop _ hrun

/-- The packet that `write_reloc` writes has the index of an entry with the handle of the buffer. -/
theorem writeReloc_packet {readDomain writeDomain flags : BitVec 32} {mem : Nat → Option Nat} (hok : TableOk s)
    (h : writeReloc c b readDomain writeDomain flags mem s = .ok (0, s')) :
    ∃ cs bo cs' i, s.cs c = some cs ∧ s.bo b = some bo ∧ s'.cs c = some cs' ∧ cs'.handles[i]? = some bo.handle ∧
      cs'.packets = cs.packets ++ relocPacket i ∧ i * RELOC_SIZE < 2 ^ 32 := by
  rcases writeReloc_spec _ h with ⟨hne, -⟩ | ⟨-, cs, bo, cs', hc, hb, -, -, hw⟩
  · exact absurd rfl hne
  have hshort := (hok.sound c cs hc).short
  refine ⟨cs, bo, cs', ?_⟩
  unfold RELOC_SIZE
  cases hw with
  | @again i reloc reloc' _ hfind hi hreloc hrelocs hbos hpackets hid _ =>
      have hlt : i < cs.relocs.length := (List.getElem?_eq_some_iff.mp hi).1
      refine ⟨i, hc, hb, setCs_cs_self, ?_, hpackets, by omega⟩
      have hhandle : (updateFlags flags reloc').handle = reloc.handle := updateDomains_handle hreloc
      rw [handles_set hi hhandle hrelocs, Cs.handles, List.getElem?_map, hi]
      unfold Cs.lookup at hfind
      split at hfind
      · obtain ⟨reloc₁, hi₁, hfound⟩ := findReloc_some hfind
        cases hi.symm.trans hi₁
        rw [← hfound]
        rfl
      · cases hfind
  | new hfind hfits hrelocs hbos hpackets hid _ =>
      refine ⟨cs.relocs.length, hc, hb, setCs_cs_self, ?_, hpackets, by omega⟩
      simp [Cs.handles, hrelocs]

/-- In every run whose relocations find their entries and whose streams are empty when they are destroyed, every
    handle is in a table at most once, and the packets refer to the entries. -/
theorem reloc_table_nodup (h : Runs State.Init State.TableStep s) :
    (∀ c cs, s.cs c = some cs → (cs.relocs.map (·.handle)).Nodup) ∧
      ∀ c b readDomain writeDomain flags mem s', writeReloc c b readDomain writeDomain flags mem s = .ok (0, s') →
        ∃ cs bo cs' i, s.cs c = some cs ∧ s.bo b = some bo ∧ s'.cs c = some cs' ∧
          (cs'.relocs.map (·.handle))[i]? = some bo.handle ∧
          cs'.packets = cs.packets ++ [0xc0001000, BitVec.ofNat 32 (i * RELOC_SIZE)] ∧ i * RELOC_SIZE < 2 ^ 32 := by
  have hok := tableOk_of_runs h
  refine ⟨fun c cs hc => (hok.sound c cs hc).handles, ?_⟩
  intro c b readDomain writeDomain flags mem s' hwrite
  exact writeReloc_packet hok hwrite

instance : Decidable (cs.Finds b bo) :=
  decidable_of_iff (∀ i < cs.handles.length, cs.handles[i]? = some bo.handle →
      cs.id ≠ 0 ∧ cs.relocsBo[i]? = some (some b))
    ⟨fun h i hi => h i (List.getElem?_eq_some_iff.mp hi).1 hi, fun h i _ hi => h i hi⟩

def Op.checkTable (s : State) : Op → Bool
  | .writeReloc c b _ _ _ _ =>
      match s.cs c, s.bo b with
      | some cs, some bo => decide (cs.Finds b bo)
      | _, _ => true
  | .destroy c => (s.cs c).all fun cs => cs.id = 0 ∨ cs.relocsBo.all Option.isNone
  | _ => true

theorem Op.keepsTable_of_check {op : Op} (h : op.checkTable s = true) : op.KeepsTable s := by
  cases op with
  | writeReloc c b readDomain writeDomain flags mem =>
      intro cs bo hc hb
      simpa [Op.checkTable, hc, hb] using h
  | destroy c =>
      intro cs b hc hb
      simp only [Op.checkTable, hc, Option.all_some, decide_eq_true_eq, List.all_eq_true] at h
      rcases h with h | h
      · exact h
      · exact absurd (h _ hb) (by simp)
  | _ => trivial

/-- Memory is always there. -/
def plenty : Nat → Option Nat := fun i => some i

/-- Two buffers in two streams, one of which is emitted and erased, and used again. -/
def sharedOps : List Op :=
  [.boOpen 7 4096 false, .boOpen 9 4096 false, .create 16 plenty, .create 16 plenty,
    .spaceCheckWithBo 0 0 4 0 0, .spaceCheckWithBo 0 1 0 4 0, .writeReloc 0 0 4 0 0 plenty, .writeReloc 0 1 0 4 0 plenty,
    .writeReloc 1 0 4 0 0 plenty, .emit 0 0, .erase 0, .spaceCheckWithBo 0 0 4 0 0, .writeReloc 0 0 4 0 0 plenty,
    .spaceCheckWithBo 1 1 0 4 0, .writeReloc 1 1 0 4 0 plenty]

theorem reloc_table_nodup_shared : ∃ s s' cs cs' i, Runs State.Init State.TableStep s ∧ s.cs 1 = some cs ∧
    cs.relocs.map (·.handle) = [7, 9] ∧ (cs.relocs.map (·.handle)).Nodup ∧
    writeReloc 1 0 4 0 0 plenty s = .ok (0, s') ∧ s'.cs 1 = some cs' ∧
    cs'.packets = cs.packets ++ [0xc0001000, BitVec.ofNat 32 (i * RELOC_SIZE)] := by
  have hplay : (playAll (fun s op => op.checkTable s) sharedOps (initState 0x10000 0x10000)).bind (fun s =>
      (s.cs 1).map fun cs => (cs.relocs.map (·.handle), (writeReloc 1 0 4 0 0 plenty s).toOption.map (·.1))) =
        some ([7, 9], some 0) := by
    decide +kernel
  obtain ⟨s, hs, hfields⟩ := Option.bind_eq_some_iff.mp hplay
  obtain ⟨cs, hcs, hfields⟩ := Option.map_eq_some_iff.mp hfields
  obtain ⟨hhandles, hwrite⟩ := Prod.mk.injEq .. ▸ hfields
  obtain ⟨⟨ret, s'⟩, hwrite, hret⟩ := Option.map_eq_some_iff.mp hwrite
  cases hret
  have hwrite := toOption_eq_some hwrite
  have hruns : Runs State.Init State.TableStep s :=
    playAll_runs (fun s op ret s' _ hcheck hrun => ⟨op, ret, hrun, Op.keepsTable_of_check hcheck⟩) ⟨_, _, rfl⟩ hs
  obtain ⟨hnodup, hpacket⟩ := reloc_table_nodup hruns
  obtain ⟨cs₁, bo, cs', i, hcs₁, -, hcs', -, hpackets, -⟩ := hpacket 1 0 4 0 0 plenty s' hwrite
  cases hcs.symm.trans hcs₁
  exact ⟨s, s', cs, cs', i, hruns, hcs, hhandles, hnodup 1 cs hcs, hwrite, hcs', hpackets⟩

/-- A stream is destroyed while it holds a buffer; the next one gets its id. -/
def destroyedOps : List Op :=
  [.boOpen 7 4096 false, .create 16 plenty, .spaceCheckWithBo 0 0 4 0 0, .writeReloc 0 0 4 0 0 plenty, .destroy 0,
    .create 16 plenty, .writeReloc 1 0 4 0 0 plenty, .writeReloc 1 0 4 0 0 plenty]

theorem reloc_table_nodup_destroyed : ∃ s cs, Runs State.Init State.Step s ∧ s.cs 1 = some cs ∧
    ¬ (cs.relocs.map (·.handle)).Nodup := by
  have hplay : (playAll (fun _ _ => true) destroyedOps (initState 0x10000 0x10000)).bind (fun s =>
      (s.cs 1).map fun cs => cs.relocs.map (·.handle)) = some [7, 7] := by
    decide +kernel
  obtain ⟨s, hs, hcs⟩ := Option.bind_eq_some_iff.mp hplay
  obtain ⟨cs, hcs, hhandles⟩ := Option.map_eq_some_iff.mp hcs
  refine ⟨s, cs, playAll_runs (fun s op ret s' _ _ hrun => ⟨op, ret, hrun⟩) ⟨_, _, rfl⟩ hs, hcs, ?_⟩
  rw [hhandles]
  decide

end LibDrm.Radeon
