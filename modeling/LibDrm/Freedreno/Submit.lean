/-
# `LibDrm.Freedreno.Submit` — the tables that msm submits

A buffer has one index for all rings of its pipe, while every ring has its own table, and
`reset` empties a table without a word to the buffers in it.  The index is right as long as

    a buffer is referred to in one ring at a time, until that ring is flushed
    a ring is reset only when its table is empty
    the relocations of a ring belong to the ring that flushes them

`Op.Tidy` says this call by call, and `TablesOk` what follows from it.
-/
import LibDrm.Freedreno.Ring

namespace LibDrm.Freedreno

variable {s s' : State} {r : RingId} {b : MsmBoId} {ring ring' : MsmRing} {bo bo' : MsmBo}

/-! ## Reading and writing the state -/

theorem getRing_spec : Ensures (s.getRing r) fun ring => s.ring r = some ring := by
  unfold State.getRing deref
  split
  · next h => exact .ok h
  · exact .error

theorem getBo_spec : Ensures (s.getBo b) fun bo => s.bo b = some bo := by
  unfold State.getBo deref
  split
  · next h => exact .ok h
  · exact .error

theorem check_spec {p : Bool} {fault : Fault} : Ensures (check p fault) fun _ => p = true := by
  unfold check
  split
  · next h => exact .ok h
  · exact .error

theorem emit_spec {data : Word} {base : Ringbuffer} :
    Ensures (base.emit data) fun base' => base'.parent = base.parent := by
  unfold Ringbuffer.emit
  split
  · exact .ok rfl
  · exact .error

theorem setRing_ring {t : RingId} {x : MsmRing} (h : (s.setRing r ring).ring t = some x) :
    t = r ∧ x = ring ∨ t ≠ r ∧ s.ring t = some x := by
  simp only [State.setRing, Function.update_apply] at h
  split at h
  · next ht => exact .inl ⟨ht, (Option.some.inj h).symm⟩
  · next ht => exact .inr ⟨ht, h⟩

theorem setBo_bo {d : MsmBoId} {x : MsmBo} (h : (s.setBo b bo).bo d = some x) :
    d = b ∧ x = bo ∨ d ≠ b ∧ s.bo d = some x := by
  simp only [State.setBo, Function.update_apply] at h
  split at h
  · next hd => exact .inl ⟨hd, (Option.some.inj h).symm⟩
  · next hd => exact .inr ⟨hd, h⟩

@[simp] theorem setRing_self : (s.setRing r ring).ring r = some ring := by simp [State.setRing]

@[simp] theorem setBo_self : (s.setBo b bo).bo b = some bo := by simp [State.setBo]

@[simp] theorem setRing_bo : (s.setRing r ring).bo = s.bo := rfl

@[simp] theorem setBo_ring : (s.setBo b bo).ring = s.ring := rfl

@[simp] theorem append_rows {α : Type} {a : α} {t : Table α} : (t.append a).rows = t.rows ++ [a] := rfl

@[simp] theorem clear_rows {α : Type} {t : Table α} : t.clear.rows = [] := rfl

@[simp] theorem bos_append_rows {e : SubmitBo} {t : BoTable} : (t.append e).rows = t.rows ++ [e] := rfl

@[simp] theorem bos_clear_rows {t : BoTable} : t.clear.rows = [] := rfl

theorem mark_eq_self {flags : Word} {e : SubmitBo} (hread : flags &&& FD_RELOC_READ = 0)
    (hwrite : flags &&& FD_RELOC_WRITE = 0) : e.mark flags = e := by
  simp [SubmitBo.mark, hread, hwrite]

theorem markBo_spec {i : Nat} {flags : Word} {t : BoTable} :
    Ensures (markBo i flags t) fun t' => t'.rows = t.rows.modify i (SubmitBo.mark flags) := by
  unfold markBo
  split
  · next hnone =>
    refine .ok ?_
    rw [show SubmitBo.mark flags = id from funext fun e => mark_eq_self hnone.1 hnone.2, List.modify_id]
  · unfold BoTable.modify
    split
    · exact .ok rfl
    · exact .error

theorem mark_handle {flags : Word} {e : SubmitBo} : (e.mark flags).handle = e.handle := by
  unfold SubmitBo.mark
  split
  · dsimp only
    split
    · rfl
    · rfl
  · split
    · rfl
    · rfl

/-! ## Runs -/

/-- The calls; `getCmd` is the first half of an indirect call, and of a flush. -/
inductive Op
  | boNew (handle : Word) (presumed : BitVec 64)
  | ringNew (size : Nat) (handle : Word) (junk : Nat → SubmitBo)
  | setParent (r : RingId) (parent : Option RingId)
  | emit (r : RingId) (data : Word)
  | reloc (r : RingId) (reloc : Reloc)
  | getCmd (r target : RingId) (targetBo : MsmBoId) (submitOffset size : Nat) (type : CmdType)
  | relocRing (r target : RingId) (start stop : Nat)
  | reset (r : RingId)
  | flush (r : RingId) (ret : Int) (fence : Word)

def Op.run : Op → State → Except Fault State
  | .boNew handle presumed, s => .ok (LibDrm.Freedreno.boNew handle presumed s)
  | .ringNew size handle junk, s => .ok (LibDrm.Freedreno.ringNew size handle junk s)
  | .setParent r parent, s => LibDrm.Freedreno.setParent r parent s
  | .emit r data, s => ringEmit r data s
  | .reloc r x, s => msmRingbufferEmitReloc r x s
  | .getCmd r target targetBo submitOffset size type, s =>
      LibDrm.Freedreno.getCmd r target targetBo submitOffset size type s
  | .relocRing r target start stop, s => msmRingbufferEmitRelocRing r target start stop s
  | .reset r, s => ringReset r s
  | .flush r ret fence, s => return (← ringFlush r ret fence s).2

/-- A handle that the kernel gives is not in use. -/
def Op.FreshHandle (s : State) : Op → Prop
  | .boNew handle _ => ∀ b bo, s.bo b = some bo → bo.handle ≠ handle
  | .ringNew _ handle _ => ∀ b bo, s.bo b = some bo → bo.handle ≠ handle
  | _ => True

/-- The buffer is on the submit list of no ring but `r`. -/
def NotElsewhere (b : MsmBoId) (r : RingId) (s : State) : Prop :=
  ∀ t ring, s.ring t = some ring → b ∈ ring.submitList → t = r

/-- What a flush hands over belongs to the ring, and nothing is left that refers to its table. -/
structure Complete (r : RingId) (ring : MsmRing) (s : State) : Prop where
  toplevel : parentOf r ring = r
  ringBo : NotElsewhere ring.ringBo r s
  targets : ∀ t target, t ∈ ring.rings → s.ring t = some target → parentOf t target = r ∨ target.relocs.rows = []
  children : ∀ t child, s.ring t = some child → parentOf t child = r → child.relocs.rows ≠ [] → t = r ∨ t ∈ ring.rings

def Op.Tidy (s : State) : Op → Prop
  | .setParent r _ => ∀ ring, s.ring r = some ring → ring.relocs.rows = []
  | .reloc r x => ∀ ring, s.ring r = some ring → NotElsewhere x.bo (parentOf r ring) s
  | .getCmd r _ targetBo _ _ _ => NotElsewhere targetBo r s
  | .relocRing r target _ _ => (∀ ring, s.ring r = some ring → parentOf r ring = r) ∧
      ∀ ring, s.ring target = some ring → NotElsewhere ring.ringBo r s
  | .reset r => ∀ ring, s.ring r = some ring → ring.bos.rows = []
  | .flush r _ _ => ∀ ring, s.ring r = some ring → Complete r ring s
  | _ => True

def initState (is2d : Bool) : State where
  bo _ := none
  freshBo := 0
  ring _ := none
  freshRing := 0
  is2d := is2d

def State.Init (s : State) : Prop := ∃ is2d, s = initState is2d

def State.Step (s s' : State) : Prop := ∃ op : Op, op.run s = .ok s' ∧ op.FreshHandle s

def State.TidyStep (s s' : State) : Prop := ∃ op : Op, op.run s = .ok s' ∧ op.FreshHandle s ∧ op.Tidy s

/-! ## What holds in a tidy run -/

/-- How many buffers there are in the table of a ring. -/
def nrBos (r : RingId) (s : State) : Nat := ((s.ring r).map fun ring => ring.bos.rows.length).getD 0

theorem nrBos_eq (h : s.ring r = some ring) : nrBos r s = ring.bos.rows.length := by simp [nrBos, h]

/-- The kernel can look up every index that it is given, and gets no buffer twice. -/
structure Submit.Ok (sub : Submit) : Prop where
  once : (sub.bos.map (·.handle)).Nodup
  cmds : ∀ cmd ∈ sub.cmds, cmd.1.submitIdx < sub.bos.length
  relocs : ∀ cmd ∈ sub.cmds, ∀ reloc ∈ cmd.2.1, reloc.relocIdx < sub.bos.length

/-- The table of a ring lists the buffers of its submit list, each at its index. -/
structure TablesOk (s : State) : Prop where
  length : ∀ {r ring}, s.ring r = some ring → ring.submitList.length = ring.bos.rows.length
  listed : ∀ {r ring i b}, s.ring r = some ring → ring.submitList[i]? = some b →
    ∃ bo e, s.bo b = some bo ∧ ring.bos.rows[i]? = some e ∧ e.handle = bo.handle ∧ bo.indexp1 = i + 1
  indexed : ∀ {b bo}, s.bo b = some bo → bo.indexp1 ≠ 0 → ∃ r ring, s.ring r = some ring ∧ b ∈ ring.submitList
  apart : ∀ {r t ring x b}, s.ring r = some ring → s.ring t = some x → b ∈ ring.submitList → b ∈ x.submitList → r = t
  handles : ∀ {b d bo x}, s.bo b = some bo → s.bo d = some x → bo.handle = x.handle → b = d
  cmds : ∀ {r ring cmd}, s.ring r = some ring → cmd ∈ ring.cmds.rows → cmd.submitIdx < ring.bos.rows.length
  relocs : ∀ {r ring reloc}, s.ring r = some ring → reloc ∈ ring.relocs.rows → reloc.relocIdx < nrBos (parentOf r ring) s
  freshBo : ∀ {b}, s.freshBo ≤ b → s.bo b = none
  freshRing : ∀ {r}, s.freshRing ≤ r → s.ring r = none
  submits : ∀ sub ∈ s.submits, sub.Ok

theorem TablesOk.of_init (h : s.Init) : TablesOk s := by
  obtain ⟨is2d, rfl⟩ := h
  constructor
  case freshBo => exact fun _ => rfl
  case freshRing => exact fun _ => rfl
  case submits => exact fun _ h => absurd h List.not_mem_nil
  all_goals
    intros
    simp_all [initState]

/-- No buffer is in a table twice. -/
theorem TablesOk.once (h : TablesOk s) (hr : s.ring r = some ring) : (ring.bos.rows.map (·.handle)).Nodup := by
  rw [List.nodup_iff_injective_getElem]
  rintro ⟨i, hi⟩ ⟨j, hj⟩ hij
  have hlen := h.length hr
  rw [List.length_map] at hi hj
  have hlist : ∀ {k : Nat} (hk : k < ring.bos.rows.length), ∃ b bo, s.bo b = some bo ∧
      ring.bos.rows[k].handle = bo.handle ∧ bo.indexp1 = k + 1 := by
    intro k hk
    obtain ⟨bo, e, hb, he, hhandle, hindex⟩ :=
      h.listed hr (List.getElem?_eq_getElem (show k < ring.submitList.length by omega))
    rw [List.getElem?_eq_getElem hk] at he
    cases he
    exact ⟨_, bo, hb, hhandle, hindex⟩
  obtain ⟨b, bo, hb, hhandle, hindex⟩ := hlist hi
  obtain ⟨d, x, hd, hhandle', hindex'⟩ := hlist hj
  simp only [List.getElem_map, hhandle, hhandle'] at hij
  cases h.handles hb hd hij
  cases hb.symm.trans hd
  simp only [Fin.mk.injEq]
  omega

/-- A ring changes, but neither its buffers nor their order. -/
theorem TablesOk.setRing (h : TablesOk s) (hr : s.ring r = some ring) (hlist : ring'.submitList = ring.submitList)
    (hbos : ring'.bos.rows.map (·.handle) = ring.bos.rows.map (·.handle))
    (hcmds : ∀ cmd ∈ ring'.cmds.rows, cmd ∈ ring.cmds.rows ∨ cmd.submitIdx < ring.bos.rows.length)
    (hrelocs : ∀ reloc ∈ ring'.relocs.rows, reloc ∈ ring.relocs.rows ∧ parentOf r ring' = parentOf r ring ∨
      reloc.relocIdx < nrBos (parentOf r ring') s) :
    TablesOk (s.setRing r ring') := by
  have hlen : ring'.bos.rows.length = ring.bos.rows.length := by simpa using congrArg List.length hbos
  have hback : ∀ {t x}, (s.setRing r ring').ring t = some x → ∃ y, s.ring t = some y ∧ x.submitList = y.submitList ∧
      x.bos.rows.map (·.handle) = y.bos.rows.map (·.handle) := by
    intro t x ht
    rcases setRing_ring ht with ⟨rfl, rfl⟩ | ⟨-, ht⟩
    · exact ⟨ring, hr, hlist, hbos⟩
    · exact ⟨x, ht, rfl, rfl⟩
  have hnr : ∀ t, nrBos t (s.setRing r ring') = nrBos t s := by
    intro t
    rcases eq_or_ne t r with rfl | htr
    · rw [nrBos_eq setRing_self, nrBos_eq hr, hlen]
    · simp [nrBos, State.setRing, htr]
  constructor
  case length =>
    intro t x ht
    obtain ⟨y, hy, hl, hb⟩ := hback ht
    rw [hl, h.length hy]
    simpa using (congrArg List.length hb).symm
  case listed =>
    intro t x i d ht hi
    obtain ⟨y, hy, hl, hb⟩ := hback ht
    rw [hl] at hi
    obtain ⟨bo, e, hd, he, hhandle, hindex⟩ := h.listed hy hi
    have hi' := congrArg (·[i]?) hb
    simp only [List.getElem?_map, he, Option.map_some] at hi'
    obtain ⟨e', he', heq⟩ := Option.map_eq_some_iff.mp hi'
    exact ⟨bo, e', hd, he', heq.trans hhandle, hindex⟩
  case indexed =>
    intro d bo hd hindex
    obtain ⟨t, y, hy, hmem⟩ := h.indexed hd hindex
    rcases eq_or_ne t r with rfl | htr
    · cases hr.symm.trans hy
      exact ⟨t, ring', setRing_self, by rwa [hlist]⟩
    · exact ⟨t, y, by simpa [State.setRing, htr] using hy, hmem⟩
  case apart =>
    intro t u x y d ht hu hx hy
    obtain ⟨x', hx', hl, -⟩ := hback ht
    obtain ⟨y', hy', hl', -⟩ := hback hu
    exact h.apart hx' hy' (hl ▸ hx) (hl' ▸ hy)
  case handles => exact h.handles
  case cmds =>
    intro t x cmd ht hcmd
    rcases setRing_ring ht with ⟨rfl, rfl⟩ | ⟨-, ht⟩
    · rw [hlen]
      exact (hcmds cmd hcmd).elim (h.cmds hr) id
    · exact h.cmds ht hcmd
  case relocs =>
    intro t x reloc ht hreloc
    rw [hnr]
    rcases setRing_ring ht with ⟨rfl, rfl⟩ | ⟨-, ht⟩
    · rcases hrelocs reloc hreloc with ⟨hreloc, hparent⟩ | hlt
      · rw [hparent]
        exact h.relocs hr hreloc
      · exact hlt
    · exact h.relocs ht hreloc
  case freshBo => exact h.freshBo
  case freshRing =>
    intro t ht
    rcases eq_or_ne t r with rfl | htr
    · rw [h.freshRing ht] at hr
      cases hr
    · simpa [State.setRing, htr] using h.freshRing ht
  case submits => exact h.submits

/-! ## The index of a buffer -/

/-- The rings after `bo2idx`: the table of `r` may be longer by an entry, everything else is as it was. -/
structure Grown (r : RingId) (s s' : State) : Prop where
  ring : ∀ {t x'}, s'.ring t = some x' → ∃ x, s.ring t = some x ∧
    x' = { x with bos := x'.bos, submitList := x'.submitList } ∧ (t ≠ r → x' = x)
  submits : s'.submits = s.submits

/-- What `bo2idx` does: the buffer gets the next index, or it has one. -/
theorem bo2idx_cases {flags : Word} : Ensures (bo2idx r b flags s) fun p => ∃ ring bo bos,
    s.ring r = some ring ∧ s.bo b = some bo ∧
      (bo.indexp1 = 0 ∧ onSubmitList b s = false ∧ p.1 = ring.bos.rows.length ∧
        (∃ e, bos.rows = ring.bos.rows ++ [e] ∧ e.handle = bo.handle) ∧
        p.2 = (s.setBo b { bo with indexp1 := ring.bos.rows.length + 1 }).setRing r
          { ring with bos, submitList := ring.submitList ++ [b] } ∨
      bo.indexp1 ≠ 0 ∧ p.1 = bo.indexp1 - 1 ∧ bos.rows = ring.bos.rows.modify (bo.indexp1 - 1) (SubmitBo.mark flags) ∧
        p.2 = s.setRing r { ring with bos }) := by
  refine (getRing_spec).bind fun ring hr => (getBo_spec).bind fun bo hb => ?_
  split
  · next hindex =>
    refine (check_spec).bind fun _ hlist => (markBo_spec).bind fun bos hbos => .pure ⟨ring, bo, bos, hr, hb, .inl ?_⟩
    refine ⟨hindex, by simpa using hlist, rfl, ?_, rfl⟩
    rw [bos_append_rows] at hbos
    exact ⟨SubmitBo.mark flags { handle := bo.handle, presumed := bo.presumed },
      by rw [hbos]; simp [List.modify_eq_take_drop], mark_handle⟩
  · next hindex =>
    exact (markBo_spec).bind fun bos hbos => .pure ⟨ring, bo, bos, hr, hb, .inr ⟨hindex, rfl, hbos, rfl⟩⟩

theorem TablesOk.index_ne_zero (h : TablesOk s) (hr : s.ring r = some ring) (hmem : b ∈ ring.submitList)
    (hb : s.bo b = some bo) : bo.indexp1 ≠ 0 := by
  obtain ⟨i, hi⟩ := List.mem_iff_getElem?.mp hmem
  obtain ⟨x, e, hx, -, -, hindex⟩ := h.listed hr hi
  cases hb.symm.trans hx
  omega

/-- A buffer without an index is added to a table. -/
theorem TablesOk.add {bos : BoTable} {e : SubmitBo} (h : TablesOk s) (hr : s.ring r = some ring)
    (hb : s.bo b = some bo) (hindex : bo.indexp1 = 0) (hbos : bos.rows = ring.bos.rows ++ [e])
    (hhandle : e.handle = bo.handle) :
    TablesOk ((s.setBo b { bo with indexp1 := ring.bos.rows.length + 1 }).setRing r
      { ring with bos, submitList := ring.submitList ++ [b] }) := by
  have hnew : ∀ {t x}, s.ring t = some x → b ∉ x.submitList := fun ht hmem => h.index_ne_zero ht hmem hb hindex
  have hold : ∀ {t x}, s.ring t = some x → ∀ {i : Nat} {d}, x.submitList[i]? = some d → d ≠ b := by
    rintro t x ht i d hi rfl
    exact hnew ht (List.mem_of_getElem? hi)
  have hlen := h.length hr
  have hmem : ∀ {t x d}, ((s.setBo b { bo with indexp1 := ring.bos.rows.length + 1 }).setRing r
      { ring with bos, submitList := ring.submitList ++ [b] }).ring t = some x → d ∈ x.submitList →
      d = b ∧ t = r ∨ d ≠ b ∧ ∃ y, s.ring t = some y ∧ d ∈ y.submitList := by
    intro t x d ht hd
    rcases setRing_ring ht with ⟨rfl, rfl⟩ | ⟨-, ht⟩
    · rcases List.mem_append.mp hd with hd | hd
      · exact .inr ⟨fun hdb => hnew hr (hdb ▸ hd), ring, hr, hd⟩
      · exact .inl ⟨List.mem_singleton.mp hd, rfl⟩
    · exact .inr ⟨fun hdb => hnew ht (hdb ▸ hd), x, ht, hd⟩
  constructor
  case length =>
    intro t x ht
    rcases setRing_ring ht with ⟨rfl, rfl⟩ | ⟨-, ht⟩
    · simp [hbos, hlen]
    · exact h.length ht
  case listed =>
    intro t x i d ht hi
    rcases setRing_ring ht with ⟨rfl, rfl⟩ | ⟨-, ht⟩
    · rcases Nat.lt_or_ge i ring.submitList.length with hlt | hge
      · rw [List.getElem?_append_left hlt] at hi
        obtain ⟨x, e', hx, he, hh, hidx⟩ := h.listed hr hi
        refine ⟨x, e', ?_, ?_, hh, hidx⟩
        · simpa [State.setBo, hold hr hi] using hx
        · rw [hbos, List.getElem?_append_left (by omega)]
          exact he
      · rw [List.getElem?_append_right hge] at hi
        have hzero : i - ring.submitList.length = 0 := by
          by_contra hne
          rw [List.getElem?_eq_none (by rw [List.length_singleton]; omega)] at hi
          cases hi
        rw [hzero] at hi
        cases hi
        refine ⟨_, e, setBo_self, ?_, hhandle, ?_⟩
        · rw [hbos, List.getElem?_append_right (by omega), show i - ring.bos.rows.length = 0 by omega]
          rfl
        · show ring.bos.rows.length + 1 = i + 1
          omega
    · obtain ⟨y, e', hy, he, hh, hidx⟩ := h.listed ht hi
      exact ⟨y, e', by simpa [State.setBo, hold ht hi] using hy, he, hh, hidx⟩
  case indexed =>
    intro d x hd hidx
    rcases setBo_bo hd with ⟨rfl, rfl⟩ | ⟨-, hd⟩
    · exact ⟨r, _, setRing_self, by simp⟩
    · obtain ⟨t, y, hy, hmem⟩ := h.indexed hd hidx
      rcases eq_or_ne t r with rfl | htr
      · cases hr.symm.trans hy
        exact ⟨t, _, setRing_self, List.mem_append_left _ hmem⟩
      · exact ⟨t, y, by simpa [State.setRing, htr] using hy, hmem⟩
  case apart =>
    intro t u x y d ht hu hx hy
    rcases hmem ht hx with ⟨rfl, rfl⟩ | ⟨hne, x', hx', hxm⟩
    · rcases hmem hu hy with ⟨-, rfl⟩ | ⟨hne, -⟩
      · rfl
      · exact absurd rfl hne
    · rcases hmem hu hy with ⟨rfl, -⟩ | ⟨-, y', hy', hym⟩
      · exact absurd rfl hne
      · exact h.apart hx' hy' hxm hym
  case handles =>
    intro d d' x x' hd hd' hxx
    have hpast : ∀ {d x}, (s.setBo b { bo with indexp1 := ring.bos.rows.length + 1 }).bo d = some x →
        ∃ y, s.bo d = some y ∧ y.handle = x.handle := by
      intro d x hd
      rcases setBo_bo hd with ⟨rfl, rfl⟩ | ⟨-, hd⟩
      · exact ⟨bo, hb, rfl⟩
      · exact ⟨x, hd, rfl⟩
    obtain ⟨y, hy, hh⟩ := hpast hd
    obtain ⟨y', hy', hh'⟩ := hpast hd'
    exact h.handles hy hy' (hh.trans (hxx.trans hh'.symm))
  case cmds =>
    intro t x cmd ht hcmd
    rcases setRing_ring ht with ⟨rfl, rfl⟩ | ⟨-, ht⟩
    · have hlt := h.cmds hr hcmd
      simp only [hbos, List.length_append, List.length_singleton]
      omega
    · exact h.cmds ht hcmd
  case relocs =>
    intro t x reloc ht hreloc
    have hle : ∀ u, nrBos u s ≤ nrBos u ((s.setBo b { bo with indexp1 := ring.bos.rows.length + 1 }).setRing r
        { ring with bos, submitList := ring.submitList ++ [b] }) := by
      intro u
      rcases eq_or_ne u r with rfl | hur
      · rw [nrBos_eq setRing_self, nrBos_eq hr]
        simp [hbos]
      · simp [nrBos, State.setRing, State.setBo, hur]
    rcases setRing_ring ht with ⟨rfl, rfl⟩ | ⟨-, ht⟩
    · exact lt_of_lt_of_le (h.relocs hr hreloc) (hle _)
    · exact lt_of_lt_of_le (h.relocs ht hreloc) (hle _)
  case freshBo =>
    intro d hd
    have hne : d ≠ b := by
      rintro rfl
      rw [h.freshBo hd] at hb
      cases hb
    simpa [State.setBo, hne] using h.freshBo hd
  case freshRing =>
    intro t ht
    have hne : t ≠ r := by
      rintro rfl
      rw [h.freshRing ht] at hr
      cases hr
    simpa [State.setRing, hne] using h.freshRing ht
  case submits => exact h.submits

/-- An index that `bo2idx` returns is one of the table of the ring, and there is the handle of the buffer. -/
def Denotes (r : RingId) (b : MsmBoId) (idx : Nat) (s : State) : Prop :=
  ∃ ring e bo, s.ring r = some ring ∧ s.bo b = some bo ∧ ring.bos.rows[idx]? = some e ∧ e.handle = bo.handle

theorem Denotes.lt {idx : Nat} (h : Denotes r b idx s) : idx < nrBos r s := by
  obtain ⟨ring, e, bo, hr, -, he, -⟩ := h
  rw [nrBos_eq hr]
  exact (List.getElem?_eq_some_iff.mp he).1

theorem map_modify_mark {flags : Word} {i : Nat} {l : List SubmitBo} :
    (l.modify i (SubmitBo.mark flags)).map (·.handle) = l.map (·.handle) := by
  refine List.ext_getElem? fun j => ?_
  simp only [List.getElem?_map, List.getElem?_modify]
  cases l[j]? with
  | none => rfl
  | some e =>
      simp only [Option.map_some]
      split
      · exact congrArg some mark_handle
      · rfl

theorem bo2idx_ok {flags : Word} (h : TablesOk s) (helse : NotElsewhere b r s) : Ensures (bo2idx r b flags s) fun p =>
    TablesOk p.2 ∧ Grown r s p.2 ∧ Denotes r b p.1 p.2 := by
  refine (bo2idx_cases).mono ?_
  rintro ⟨idx, s'⟩ ⟨ring, bo, bos, hr, hb, ⟨hindex, -, hidx, ⟨e, hbos, hhandle⟩, hs⟩ | ⟨hindex, hidx, hbos, hs⟩⟩
  · dsimp only at hidx hs ⊢
    subst hs hidx
    refine ⟨h.add hr hb hindex hbos hhandle, ⟨fun {t x'} ht => ?_, rfl⟩, _, e, _, setRing_self, setBo_self, ?_, hhandle⟩
    · rcases setRing_ring ht with ⟨rfl, rfl⟩ | ⟨-, ht⟩
      · exact ⟨ring, hr, rfl, fun hne => absurd rfl hne⟩
      · exact ⟨x', ht, rfl, fun _ => rfl⟩
    · rw [hbos, List.getElem?_append_right le_rfl, Nat.sub_self]
      rfl
  · dsimp only at hidx hs ⊢
    subst hs hidx
    have hhandles : bos.rows.map (·.handle) = ring.bos.rows.map (·.handle) := by rw [hbos, map_modify_mark]
    -- it is on the list of this ring, since it is on no other
    obtain ⟨t, x, ht, hmem⟩ := h.indexed hb hindex
    obtain rfl := helse t x ht hmem
    cases hr.symm.trans ht
    obtain ⟨i, hi⟩ := List.mem_iff_getElem?.mp hmem
    obtain ⟨bo', e, hb', he, hhandle, hidx⟩ := h.listed hr hi
    cases hb.symm.trans hb'
    refine ⟨h.setRing hr rfl hhandles (fun _ => .inl) (fun _ hreloc => .inl ⟨hreloc, rfl⟩),
      ⟨fun {u x'} hu => ?_, rfl⟩, _, e.mark flags, bo, setRing_self, hb, ?_, (mark_handle).trans hhandle⟩
    · rcases setRing_ring hu with ⟨rfl, rfl⟩ | ⟨-, hu⟩
      · exact ⟨ring, hr, rfl, fun hne => absurd rfl hne⟩
      · exact ⟨x', hu, rfl, fun _ => rfl⟩
    · show bos.rows[bo.indexp1 - 1]? = _
      rw [hbos, hidx, Nat.add_sub_cancel, List.getElem?_modify_eq, he]
      rfl

/-! ## The other calls -/

theorem ringEmit_ok {data : Word} (h : TablesOk s) : Ensures (ringEmit r data s) TablesOk := by
  refine (getRing_spec).bind fun ring hr => (emit_spec).bind fun base hbase => .pure ?_
  exact h.setRing hr rfl rfl (fun _ => .inl) fun reloc hreloc => .inl ⟨hreloc, by simp only [parentOf, hbase]⟩

theorem setParent_ok {parent : Option RingId} (h : TablesOk s) (hempty : ∀ ring, s.ring r = some ring → ring.relocs.rows = []) :
    Ensures (setParent r parent s) TablesOk := by
  refine (getRing_spec).bind fun ring hr => .pure ?_
  refine h.setRing hr rfl rfl (fun _ => .inl) fun reloc hreloc => ?_
  change reloc ∈ ring.relocs.rows at hreloc
  rw [hempty ring hr] at hreloc
  cases hreloc

/-- The rings after `getCmd`: `r` may have one more command, for `target`. -/
structure Prepared (r target : RingId) (s s' : State) : Prop where
  ring : ∀ {t x'}, s'.ring t = some x' → ∃ x, s.ring t = some x ∧ x'.base = x.base ∧ x'.ringBo = x.ringBo ∧
    x'.relocs = x.relocs ∧ (x'.rings = x.rings ∨ t = r ∧ x'.rings = x.rings ++ [target]) ∧
    (t ≠ r → x'.submitList = x.submitList)
  submits : s'.submits = s.submits

theorem Prepared.notElsewhere {target : RingId} (h : Prepared r target s s') (helse : NotElsewhere b r s) :
    NotElsewhere b r s' := by
  intro t x' ht hmem
  obtain ⟨x, hx, -, -, -, -, hlist⟩ := h.ring ht
  by_contra hne
  rw [hlist hne] at hmem
  exact hne (helse t x hx hmem)

theorem getCmd_ok {target : RingId} {submitOffset size : Nat} {type : CmdType} (h : TablesOk s)
    (helse : NotElsewhere b r s) : Ensures (getCmd r target b submitOffset size type s) fun s' =>
      TablesOk s' ∧ Prepared r target s s' := by
  refine (getRing_spec).bind fun ring hr => (getBo_spec).bind fun bo hb => ?_
  split
  · exact .pure ⟨h, fun ht => ⟨_, ht, rfl, rfl, rfl, .inl rfl, fun _ => rfl⟩, rfl⟩
  · refine (bo2idx_ok h helse).bind ?_
    rintro ⟨idx, s₁⟩ ⟨hok, hgrown, hidx⟩
    refine (getRing_spec).bind fun ring₁ hr₁ => .pure ⟨?_, fun {t x'} ht => ?_, hgrown.submits⟩
    · refine hok.setRing hr₁ rfl rfl (fun cmd hcmd => ?_) fun _ hreloc => .inl ⟨hreloc, rfl⟩
      rcases List.mem_append.mp hcmd with hcmd | hcmd
      · exact .inl hcmd
      · obtain rfl := List.mem_singleton.mp hcmd
        rw [← nrBos_eq hr₁]
        exact .inr hidx.lt
    · rcases setRing_ring ht with ⟨rfl, rfl⟩ | ⟨hne, ht⟩
      · obtain ⟨x, hx, heq, -⟩ := hgrown.ring hr₁
        refine ⟨x, hx, ?_, ?_, ?_, .inr ⟨rfl, ?_⟩, fun hne => absurd rfl hne⟩
        · rw [heq]
        · rw [heq]
        · rw [heq]
        · rw [heq]
      · obtain ⟨x, hx, -, hsame⟩ := hgrown.ring ht
        rw [hsame hne]
        exact ⟨x, hx, rfl, rfl, rfl, .inl rfl, fun _ => rfl⟩

theorem emitReloc_ok {x : Reloc} (h : TablesOk s)
    (helse : ∀ ring, s.ring r = some ring → NotElsewhere x.bo (parentOf r ring) s) :
    Ensures (msmRingbufferEmitReloc r x s) TablesOk := by
  refine (getRing_spec).bind fun ring hr => (bo2idx_ok h (helse ring hr)).bind ?_
  rintro ⟨idx, s₁⟩ ⟨hok, hgrown, hidx⟩
  refine (getRing_spec).bind fun ring₁ hr₁ => (getBo_spec).bind fun bo _ => (emit_spec).bind fun base hbase => .pure ?_
  have hsame : parentOf r ring₁ = parentOf r ring := by
    obtain ⟨ring₀, hr₀, heq, -⟩ := hgrown.ring hr₁
    cases hr.symm.trans hr₀
    rw [heq]
    rfl
  refine hok.setRing hr₁ rfl rfl (fun _ => .inl) fun reloc hreloc => ?_
  rcases List.mem_append.mp hreloc with hreloc | hreloc
  · exact .inl ⟨hreloc, by simp only [parentOf, hbase]⟩
  · obtain rfl := List.mem_singleton.mp hreloc
    refine .inr ?_
    rw [show parentOf r _ = parentOf r ring₁ by simp only [parentOf, hbase], hsame]
    exact hidx.lt

theorem emitRelocRing_ok {target : RingId} {start stop : Nat} (h : TablesOk s)
    (htop : ∀ ring, s.ring r = some ring → parentOf r ring = r)
    (helse : ∀ ring, s.ring target = some ring → NotElsewhere ring.ringBo r s) :
    Ensures (msmRingbufferEmitRelocRing r target start stop s) TablesOk := by
  refine (getRing_spec).bind fun targetRing ht => (getCmd_ok h (helse targetRing ht)).bind ?_
  rintro s₁ ⟨hok, hprep⟩
  refine emitReloc_ok hok fun ring₁ hr₁ => ?_
  obtain ⟨ring, hr, hbase, -⟩ := hprep.ring hr₁
  have hparent : parentOf r ring₁ = r := by
    rw [parentOf, hbase]
    exact htop ring hr
  rw [hparent]
  exact hprep.notElsewhere (helse targetRing ht)

/-! ## A new buffer, a new ring -/

theorem TablesOk.boNew {handle : Word} {presumed : BitVec 64} (h : TablesOk s)
    (hfresh : ∀ b bo, s.bo b = some bo → bo.handle ≠ handle) : TablesOk (boNew handle presumed s) := by
  have hnew : ∀ {d x}, (LibDrm.Freedreno.boNew handle presumed s).bo d = some x →
      d = s.freshBo ∧ x.handle = handle ∧ x.indexp1 = 0 ∨ s.bo d = some x := by
    intro d x hd
    rcases setBo_bo (s := s) hd with ⟨rfl, rfl⟩ | ⟨-, hd⟩
    · exact .inl ⟨rfl, rfl, rfl⟩
    · exact .inr hd
  have hold : ∀ {d x}, s.bo d = some x → (LibDrm.Freedreno.boNew handle presumed s).bo d = some x := by
    intro d x hd
    have hne : d ≠ s.freshBo := by
      rintro rfl
      rw [h.freshBo le_rfl] at hd
      cases hd
    simpa [LibDrm.Freedreno.boNew, State.setBo, hne] using hd
  constructor
  case length => exact h.length
  case listed =>
    intro t x i d ht hi
    obtain ⟨bo, e, hd, he, hhandle, hindex⟩ := h.listed ht hi
    exact ⟨bo, e, hold hd, he, hhandle, hindex⟩
  case indexed =>
    intro d x hd hindex
    rcases hnew hd with ⟨-, -, hzero⟩ | hd
    · exact absurd hzero hindex
    · exact h.indexed hd hindex
  case apart => exact h.apart
  case handles =>
    intro d d' x x' hd hd' hxx
    rcases hnew hd with ⟨rfl, hx, -⟩ | hd
    · rcases hnew hd' with ⟨rfl, -⟩ | hd'
      · rfl
      · exact absurd (hxx.symm.trans hx) (hfresh d' x' hd')
    · rcases hnew hd' with ⟨rfl, hx', -⟩ | hd'
      · exact absurd (hxx.trans hx') (hfresh d x hd)
      · exact h.handles hd hd' hxx
  case cmds => exact h.cmds
  case relocs => exact h.relocs
  case freshBo =>
    intro d hd
    have hlt : s.freshBo < d := hd
    simpa [LibDrm.Freedreno.boNew, State.setBo, hlt.ne'] using h.freshBo hlt.le
  case freshRing => exact h.freshRing
  case submits => exact h.submits

theorem TablesOk.addRing {x : MsmRing} (h : TablesOk s) (hlist : x.submitList = []) (hbos : x.bos.rows = [])
    (hcmds : x.cmds.rows = []) (hrelocs : x.relocs.rows = []) :
    TablesOk { s.setRing s.freshRing x with freshRing := s.freshRing + 1 } := by
  have hnew : ∀ {t y}, (s.setRing s.freshRing x).ring t = some y → t = s.freshRing ∧ y = x ∨ s.ring t = some y := by
    intro t y ht
    exact (setRing_ring ht).imp_right And.right
  have hold : ∀ {t y}, s.ring t = some y → (s.setRing s.freshRing x).ring t = some y := by
    intro t y ht
    have hne : t ≠ s.freshRing := by
      rintro rfl
      rw [h.freshRing le_rfl] at ht
      cases ht
    simpa [State.setRing, hne] using ht
  constructor
  case length =>
    intro t y ht
    rcases hnew ht with ⟨-, rfl⟩ | ht
    · rw [hlist, hbos]
      rfl
    · exact h.length ht
  case listed =>
    intro t y i d ht hi
    rcases hnew ht with ⟨-, rfl⟩ | ht
    · rw [hlist] at hi
      cases hi
    · exact h.listed ht hi
  case indexed =>
    intro d bo hd hindex
    obtain ⟨t, y, ht, hmem⟩ := h.indexed hd hindex
    exact ⟨t, y, hold ht, hmem⟩
  case apart =>
    intro t u y z d ht hu hy hz
    rcases hnew ht with ⟨-, rfl⟩ | ht
    · rw [hlist] at hy
      cases hy
    · rcases hnew hu with ⟨-, rfl⟩ | hu
      · rw [hlist] at hz
        cases hz
      · exact h.apart ht hu hy hz
  case handles => exact h.handles
  case cmds =>
    intro t y cmd ht hcmd
    rcases hnew ht with ⟨-, rfl⟩ | ht
    · rw [hcmds] at hcmd
      cases hcmd
    · exact h.cmds ht hcmd
  case relocs =>
    intro t y reloc ht hreloc
    rcases hnew ht with ⟨-, rfl⟩ | ht
    · rw [hrelocs] at hreloc
      cases hreloc
    · have hlt := h.relocs ht hreloc
      cases hp : s.ring (parentOf t y) with
      | none =>
          simp only [nrBos, hp, Option.map_none, Option.getD_none] at hlt
          exact absurd hlt (Nat.not_lt_zero _)
      | some p =>
          rw [nrBos_eq hp] at hlt
          have hp' : (s.setRing s.freshRing x).ring (parentOf t y) = some p := hold hp
          simpa [nrBos, hp'] using hlt
  case freshBo => exact h.freshBo
  case freshRing =>
    intro t ht
    have hlt : s.freshRing < t := ht
    simpa [State.setRing, hlt.ne'] using h.freshRing hlt.le
  case submits => exact h.submits

/-! ## Flush and reset -/

/-- The buffers of a list lose their index. -/
structure Unlisted (l : List MsmBoId) (s s' : State) : Prop where
  rest : s' = { s with bo := s'.bo }
  listed : ∀ {d x'}, s'.bo d = some x' → d ∈ l → ∃ x, s.bo d = some x ∧ x'.handle = x.handle ∧ x'.indexp1 = 0
  other : ∀ {d}, d ∉ l → s'.bo d = s.bo d

theorem Unlisted.refl : Unlisted [] s s := ⟨rfl, fun _ h => absurd h List.not_mem_nil, fun _ => rfl⟩

theorem unlist_spec {l : List MsmBoId} : Ensures (l.foldlM unlist s) (Unlisted l s) := by
  refine Ensures.foldlM_done (I := fun done s' => Unlisted done s s') .refl ?_
  intro done b rest s₁ _ hs₁
  refine (getBo_spec).bind fun bo hb => .pure ⟨?_, ?_, ?_⟩
  · rw [hs₁.rest]
    rfl
  · intro d x' hd hmem
    by_cases hdone : d ∈ done
    · rcases setBo_bo hd with ⟨rfl, rfl⟩ | ⟨-, hd⟩
      · obtain ⟨x, hx, hhandle, -⟩ := hs₁.listed hb hdone
        exact ⟨x, hx, hhandle, rfl⟩
      · exact hs₁.listed hd hdone
    · have hdb : d = b := by simpa [hdone] using hmem
      subst hdb
      rw [setBo_self] at hd
      cases hd
      exact ⟨bo, (hs₁.other hdone).symm.trans hb, rfl, rfl⟩
  · intro d hd
    simp only [List.mem_append, List.mem_singleton, not_or] at hd
    simp only [State.setBo, Function.update_of_ne hd.2]
    exact hs₁.other hd.1

/-- The rings of a list lose their relocations. -/
structure Unrelocated (l : List RingId) (s s' : State) : Prop where
  rest : s' = { s with ring := s'.ring }
  ring : ∀ {t x'}, s'.ring t = some x' → ∃ x, s.ring t = some x ∧ x' = { x with relocs := x'.relocs } ∧
    (t ∈ l → x'.relocs.rows = []) ∧ ∀ reloc ∈ x'.relocs.rows, reloc ∈ x.relocs.rows
  back : ∀ {t x}, s.ring t = some x → ∃ x', s'.ring t = some x'

theorem clearRelocs_spec {l : List RingId} : Ensures (l.foldlM clearRelocs s) (Unrelocated l s) := by
  refine Ensures.foldlM_done (I := fun done s' => Unrelocated done s s')
    ⟨rfl, fun h => ⟨_, h, rfl, fun h => absurd h List.not_mem_nil, fun _ h => h⟩, fun h => ⟨_, h⟩⟩ ?_
  intro done r rest s₁ _ hs₁
  refine (getRing_spec).bind fun ring hr => .pure ⟨?_, ?_, ?_⟩
  · rw [hs₁.rest]
    rfl
  · intro t x' ht
    rcases setRing_ring ht with ⟨rfl, rfl⟩ | ⟨hne, ht⟩
    · obtain ⟨x, hx, heq, -⟩ := hs₁.ring hr
      exact ⟨x, hx, by rw [heq], fun _ => rfl, fun _ h => absurd h List.not_mem_nil⟩
    · obtain ⟨x, hx, heq, hclear, hsub⟩ := hs₁.ring ht
      refine ⟨x, hx, heq, fun hmem => hclear ?_, hsub⟩
      rcases List.mem_append.mp hmem with hmem | hmem
      · exact hmem
      · exact absurd (List.mem_singleton.mp hmem) hne
  · intro t x ht
    obtain ⟨x', hx'⟩ := hs₁.back ht
    rcases eq_or_ne t r with rfl | htr
    · exact ⟨_, setRing_self⟩
    · exact ⟨x', by simpa [State.setRing, htr] using hx'⟩

/-- The state after a flush or a reset of `r`. -/
structure Emptied (r : RingId) (targets : List RingId) (l : List MsmBoId) (s s' : State) : Prop where
  listed : ∀ {d x'}, s'.bo d = some x' → d ∈ l → ∃ x, s.bo d = some x ∧ x'.handle = x.handle ∧ x'.indexp1 = 0
  other : ∀ {d}, d ∉ l → s'.bo d = s.bo d
  self : ∀ {x'}, s'.ring r = some x' → x'.submitList = [] ∧ x'.bos.rows = [] ∧ x'.cmds.rows = [] ∧ x'.relocs.rows = []
  ring : ∀ {t x'}, s'.ring t = some x' → t ≠ r → ∃ x, s.ring t = some x ∧ x' = { x with relocs := x'.relocs } ∧
    (t ∈ targets → x'.relocs.rows = []) ∧ ∀ reloc ∈ x'.relocs.rows, reloc ∈ x.relocs.rows
  back : ∀ {t x}, s.ring t = some x → t ≠ r → ∃ x', s'.ring t = some x'
  freshBo : s'.freshBo = s.freshBo
  freshRing : s'.freshRing = s.freshRing
  submits : s'.submits = s.submits

theorem TablesOk.emptied {targets : List RingId} (h : TablesOk s) (hr : s.ring r = some ring)
    (he : Emptied r targets ring.submitList s s') (hchildren : ∀ t child, s.ring t = some child → parentOf t child = r →
      child.relocs.rows ≠ [] → t = r ∨ t ∈ targets) : TablesOk s' := by
  have hkept : ∀ {t x'}, s'.ring t = some x' → t ≠ r → ∃ x, s.ring t = some x ∧
      x'.submitList = x.submitList ∧ x'.bos = x.bos ∧ x'.cmds = x.cmds := by
    intro t x' ht htr
    obtain ⟨x, hx, heq, -⟩ := he.ring ht htr
    rw [heq]
    exact ⟨x, hx, rfl, rfl, rfl⟩
  have hlist : ∀ {t x'}, s'.ring t = some x' → x'.submitList = [] ∨ t ≠ r ∧ ∃ x, s.ring t = some x ∧
      x'.submitList = x.submitList ∧ x'.bos = x.bos ∧ x'.cmds = x.cmds := by
    intro t x' ht
    rcases eq_or_ne t r with rfl | htr
    · exact .inl (he.self ht).1
    · exact .inr ⟨htr, hkept ht htr⟩
  have hbo : ∀ {d x'}, s'.bo d = some x' → ∃ x, s.bo d = some x ∧ x'.handle = x.handle := by
    intro d x' hd
    by_cases hmem : d ∈ ring.submitList
    · obtain ⟨x, hx, hhandle, -⟩ := he.listed hd hmem
      exact ⟨x, hx, hhandle⟩
    · exact ⟨x', (he.other hmem).symm.trans hd, rfl⟩
  constructor
  case length =>
    intro t x' ht
    rcases eq_or_ne t r with rfl | htr
    · obtain ⟨hl, hb, -⟩ := he.self ht
      rw [hl, hb]
      rfl
    · obtain ⟨x, hx, hl, hb, -⟩ := hkept ht htr
      rw [hl, hb]
      exact h.length hx
  case listed =>
    intro t x' i d ht hi
    rcases hlist ht with hnil | ⟨htr, x, hx, hl, hb, -⟩
    · rw [hnil] at hi
      cases hi
    · rw [hl] at hi
      obtain ⟨bo, e, hd, hrow, hhandle, hindex⟩ := h.listed hx hi
      have hnot : d ∉ ring.submitList := fun hmem => htr (h.apart hx hr (List.mem_of_getElem? hi) hmem)
      exact ⟨bo, e, (he.other hnot).trans hd, by rw [hb]; exact hrow, hhandle, hindex⟩
  case indexed =>
    intro d x' hd hindex
    by_cases hnot : d ∈ ring.submitList
    · obtain ⟨x, -, -, hzero⟩ := he.listed hd hnot
      exact absurd hzero hindex
    · obtain ⟨t, y, hy, hmem⟩ := h.indexed ((he.other hnot).symm.trans hd) hindex
      have htr : t ≠ r := by
        rintro rfl
        cases hr.symm.trans hy
        exact hnot hmem
      obtain ⟨y', hy'⟩ := he.back hy htr
      obtain ⟨z, hz, heq, -⟩ := he.ring hy' htr
      cases hy.symm.trans hz
      exact ⟨t, y', hy', by rw [heq]; exact hmem⟩
  case apart =>
    intro t u x' y' d ht hu hx hy
    rcases hlist ht with hnil | ⟨-, x, hx', hl, -⟩
    · rw [hnil] at hx
      cases hx
    · rcases hlist hu with hnil | ⟨-, y, hy', hl', -⟩
      · rw [hnil] at hy
        cases hy
      · exact h.apart hx' hy' (hl ▸ hx) (hl' ▸ hy)
  case handles =>
    intro d d' x x' hd hd' hxx
    obtain ⟨y, hy, hh⟩ := hbo hd
    obtain ⟨y', hy', hh'⟩ := hbo hd'
    exact h.handles hy hy' (hh.symm.trans (hxx.trans hh'))
  case cmds =>
    intro t x' cmd ht hcmd
    rcases eq_or_ne t r with rfl | htr
    · rw [(he.self ht).2.2.1] at hcmd
      cases hcmd
    · obtain ⟨x, hx, -, hb, hc⟩ := hkept ht htr
      rw [hc] at hcmd
      rw [hb]
      exact h.cmds hx hcmd
  case relocs =>
    intro t x' reloc ht hreloc
    rcases eq_or_ne t r with rfl | htr
    · rw [(he.self ht).2.2.2] at hreloc
      cases hreloc
    · obtain ⟨x, hx, heq, hclear, hsub⟩ := he.ring ht htr
      have hlt := h.relocs hx (hsub reloc hreloc)
      have hparent : parentOf t x' = parentOf t x := by rw [heq]; rfl
      have hpr : parentOf t x ≠ r := by
        intro hp
        rcases hchildren t x hx hp (List.ne_nil_of_mem (hsub reloc hreloc)) with htr' | htarget
        · exact htr htr'
        · rw [hclear htarget] at hreloc
          cases hreloc
      rw [hparent]
      cases hp : s.ring (parentOf t x) with
      | none =>
          simp only [nrBos, hp, Option.map_none, Option.getD_none] at hlt
          exact absurd hlt (Nat.not_lt_zero _)
      | some p =>
          obtain ⟨p', hp'⟩ := he.back hp hpr
          obtain ⟨q, hq, heq', -⟩ := he.ring hp' hpr
          cases hp.symm.trans hq
          rw [nrBos_eq hp] at hlt
          rw [nrBos_eq hp', heq']
          exact hlt
  case freshBo =>
    intro d hd
    rw [he.freshBo] at hd
    cases hd' : s'.bo d with
    | none => rfl
    | some x' =>
        obtain ⟨x, hx, -⟩ := hbo hd'
        rw [h.freshBo hd] at hx
        cases hx
  case freshRing =>
    intro t ht
    rw [he.freshRing] at ht
    cases hring : s'.ring t with
    | none => rfl
    | some x' =>
        rcases eq_or_ne t r with rfl | htr
        · rw [h.freshRing ht] at hr
          cases hr
        · obtain ⟨x, hx, -⟩ := he.ring hring htr
          rw [h.freshRing ht] at hx
          cases hx
  case submits =>
    rw [he.submits]
    exact h.submits

/-- `flush_reset`, after the buffers of the submit list lost their index. -/
theorem flushReset_emptied {s₀ : State} {l : List MsmBoId} (ring' : MsmRing) (hl : Unlisted l s₀ s)
    (hself : ring'.rings = ring.rings) (hlist : ring'.submitList = []) :
    Ensures (flushReset r (s.setRing r ring')) (Emptied r ring.rings l s₀) := by
  refine (getRing_spec).bind fun ring₁ hr₁ => ?_
  rw [setRing_self] at hr₁
  cases hr₁
  rw [hself]
  refine (clearRelocs_spec).bind fun s₂ hs₂ => (getRing_spec).bind fun ring₂ hr₂ => .pure ?_
  have hrest : s₂ = { s.setRing r ring' with ring := s₂.ring } := hs₂.rest
  have hbo : s₂.bo = s.bo := by rw [hrest]; rfl
  have hsame : ∀ {t}, t ≠ r → (s.setRing r ring').ring t = s₀.ring t := by
    intro t htr
    rw [hl.rest]
    simp [State.setRing, htr]
  constructor
  case listed =>
    intro d x' hd hmem
    exact hl.listed (by rw [← hbo]; exact hd) hmem
  case other =>
    intro d hd
    exact (congrFun hbo d).trans (hl.other hd)
  case self =>
    intro x' hx'
    rw [setRing_self] at hx'
    cases hx'
    obtain ⟨x, hx, heq, -⟩ := hs₂.ring hr₂
    rw [setRing_self] at hx
    cases hx
    refine ⟨?_, rfl, rfl, rfl⟩
    rw [heq]
    exact hlist
  case ring =>
    intro t x' ht htr
    rcases setRing_ring ht with ⟨h, -⟩ | ⟨-, ht⟩
    · exact absurd h htr
    · obtain ⟨x, hx, heq, hclear, hsub⟩ := hs₂.ring ht
      exact ⟨x, (hsame htr).symm.trans hx, heq, hclear, hsub⟩
  case back =>
    intro t x ht htr
    obtain ⟨x', hx'⟩ := hs₂.back ((hsame htr).trans ht)
    exact ⟨x', by simpa [State.setRing, htr] using hx'⟩
  case freshBo => rw [hrest, hl.rest]; rfl
  case freshRing => rw [hrest, hl.rest]; rfl
  case submits => rw [hrest, hl.rest]; rfl

theorem ringReset_ok (h : TablesOk s) (hempty : ∀ ring, s.ring r = some ring → ring.bos.rows = []) :
    Ensures (ringReset r s) TablesOk := by
  refine (getRing_spec).bind fun ring hr => ?_
  have hlist : ring.submitList = [] := by
    rw [← List.length_eq_zero_iff, h.length hr, hempty ring hr]
    rfl
  refine (flushReset_emptied { ring with base := ring.base.rewind s.is2d } .refl rfl hlist).mono
    fun s' he => ?_
  rw [← hlist] at he
  refine h.emptied hr he fun t child ht hp hne => ?_
  -- its relocations would refer to an empty table
  obtain ⟨reloc, hreloc⟩ := List.exists_mem_of_ne_nil _ hne
  have hlt := h.relocs ht hreloc
  rw [hp, nrBos_eq hr, hempty ring hr] at hlt
  exact absurd hlt (Nat.not_lt_zero _)

theorem stampAll_ok {ret : Int} {fence : Word} {l : List RingId} (h : TablesOk s) (hr : s.ring r = some ring) :
    Ensures (stampAll ret fence l s) fun s' => TablesOk s' ∧ s'.submits = s.submits ∧
      (∃ ring', s'.ring r = some ring' ∧ ring'.submitList = ring.submitList ∧ ring'.rings = ring.rings) ∧
      ∀ {t x'}, s'.ring t = some x' → ∃ x, s.ring t = some x ∧ parentOf t x' = parentOf t x ∧ x'.relocs = x.relocs := by
  have hstart : TablesOk s ∧ s.submits = s.submits ∧
      (∃ ring', s.ring r = some ring' ∧ ring'.submitList = ring.submitList ∧ ring'.rings = ring.rings) ∧
      ∀ {t x'}, s.ring t = some x' → ∃ x, s.ring t = some x ∧ parentOf t x' = parentOf t x ∧ x'.relocs = x.relocs :=
    ⟨h, rfl, ⟨ring, hr, rfl, rfl⟩, fun ht => ⟨_, ht, rfl, rfl⟩⟩
  unfold stampAll
  split
  · exact .ok hstart
  refine Ensures.foldlM hstart ?_
  rintro s₁ t ⟨hok, hsub, ⟨ring₁, hr₁, hlist, hrings⟩, hback⟩
  refine (getRing_spec).bind fun x ht => .pure ⟨?_, hsub, ?_, ?_⟩
  · exact hok.setRing ht rfl rfl (fun _ => .inl) fun _ hreloc => .inl ⟨hreloc, rfl⟩
  · rcases eq_or_ne r t with rfl | hrt
    · cases hr₁.symm.trans ht
      exact ⟨_, setRing_self, hlist, hrings⟩
    · exact ⟨ring₁, by simpa [State.setRing, hrt] using hr₁, hlist, hrings⟩
  · intro u x' hu
    rcases setRing_ring hu with ⟨rfl, rfl⟩ | ⟨-, hu⟩
    · obtain ⟨y, hy, hparent, hrelocs⟩ := hback ht
      exact ⟨y, hy, hparent, hrelocs⟩
    · exact hback hu

theorem mem_cmdRelocs {cmd : SubmitCmd} {relocs : List SubmitReloc} {reloc : SubmitReloc}
    (h : reloc ∈ cmdRelocs cmd relocs) : reloc ∈ relocs := List.mem_of_mem_drop (List.mem_of_mem_take h)

/-- What is submitted, if the targets belong to the ring. -/
theorem TablesOk.submit {cmds : List (SubmitCmd × List SubmitReloc × List Word)} (h : TablesOk s)
    (hr : s.ring r = some ring) (htargets : ∀ t target, t ∈ ring.rings → s.ring t = some target →
      parentOf t target = r ∨ target.relocs.rows = [])
    (hcmds : (ring.cmds.rows.zip ring.rings).mapM (fixUp s) = .ok cmds) :
    TablesOk { s with submits := s.submits ++ [⟨ring.bos.rows, cmds⟩] } := by
  have hfix : Ensures ((ring.cmds.rows.zip ring.rings).mapM (fixUp s)) fun ys => ∀ y ∈ ys,
      ∃ x ∈ ring.cmds.rows.zip ring.rings, ∃ target, s.ring x.2 = some target ∧ y.1 = x.1 ∧
        y.2.1 = cmdRelocs x.1 target.relocs.rows :=
    .mapM fun x _ => (getRing_spec).bind fun target ht => .pure ⟨target, ht, rfl, rfl⟩
  have hof := hfix cmds hcmds
  refine ⟨h.length, h.listed, h.indexed, h.apart, h.handles, h.cmds, h.relocs, h.freshBo, h.freshRing, ?_⟩
  intro sub hsub
  rcases List.mem_append.mp hsub with hsub | hsub
  · exact h.submits sub hsub
  obtain rfl := List.mem_singleton.mp hsub
  refine ⟨h.once hr, fun y hy => ?_, fun y hy reloc hreloc => ?_⟩
  · obtain ⟨x, hx, target, -, hcmd, -⟩ := hof y hy
    rw [hcmd]
    exact h.cmds hr (List.of_mem_zip hx).1
  · obtain ⟨x, hx, target, ht, -, hrelocs⟩ := hof y hy
    rw [hrelocs] at hreloc
    have hmem := mem_cmdRelocs hreloc
    rcases htargets x.2 target (List.of_mem_zip hx).2 ht with hparent | hnil
    · have hlt := h.relocs ht hmem
      rwa [hparent, nrBos_eq hr] at hlt
    · rw [hnil] at hmem
      cases hmem

theorem flush_ok {lastStart : Nat} {ret : Int} {fence : Word} (h : TablesOk s)
    (hcomplete : ∀ ring, s.ring r = some ring → Complete r ring s) :
    Ensures (msmRingbufferFlush r lastStart ret fence s) fun p => TablesOk p.2 := by
  refine (getRing_spec).bind fun ring hr => ?_
  have hc := hcomplete ring hr
  refine (getCmd_ok h hc.ringBo).bind ?_
  rintro s₁ ⟨hok₁, hprep⟩
  refine (getRing_spec).bind fun ring₁ hr₁ => ?_
  obtain ⟨ring₀, hr₀, hbase, -, -, hrings, -⟩ := hprep.ring hr₁
  cases hr.symm.trans hr₀
  have hmem : ∀ {t}, t ∈ ring.rings → t ∈ ring₁.rings := by
    intro t ht
    rcases hrings with hrings | ⟨-, hrings⟩
    · rwa [hrings]
    · rw [hrings]
      exact List.mem_append_left _ ht
  have htargets : ∀ t target, t ∈ ring₁.rings → s₁.ring t = some target →
      parentOf t target = r ∨ target.relocs.rows = [] := by
    intro t target hmem ht
    obtain ⟨x, hx, hb, -, hrelocs, -⟩ := hprep.ring ht
    rw [parentOf, hb, hrelocs]
    have hr' : t = r → x.base.parent.getD t = r := by
      rintro rfl
      cases hr.symm.trans hx
      exact hc.toplevel
    rcases hrings with hrings | ⟨-, hrings⟩
    · exact hc.targets t x (hrings ▸ hmem) hx
    · rw [hrings] at hmem
      rcases List.mem_append.mp hmem with hmem | hmem
      · exact hc.targets t x hmem hx
      · exact .inl (hr' (List.mem_singleton.mp hmem))
  have hchildren : ∀ t child, s₁.ring t = some child → parentOf t child = r → child.relocs.rows ≠ [] →
      t = r ∨ t ∈ ring₁.rings := by
    intro t child ht hp hne
    obtain ⟨x, hx, hb, -, hrelocs, -⟩ := hprep.ring ht
    rw [parentOf, hb] at hp
    rw [hrelocs] at hne
    exact (hc.children t x hx hp hne).imp_right hmem
  intro p hp
  obtain ⟨cmds, hcmds, hp⟩ := exists_of_bind_ok hp
  have hok₂ := hok₁.submit hr₁ htargets hcmds
  obtain ⟨s₃, hs₃, hp⟩ := exists_of_bind_ok hp
  obtain ⟨hok₃, -, ⟨ring₃, hr₃, hlist, hrings₃⟩, hback⟩ := stampAll_ok hok₂ hr₁ s₃ hs₃
  obtain ⟨s₄, hs₄, hp⟩ := exists_of_bind_ok hp
  have hun := unlist_spec s₄ hs₄
  have hr₄ : s₄.ring r = some ring₃ := by rw [hun.rest]; exact hr₃
  obtain ⟨ring₄, hring₄, hp⟩ := exists_of_bind_ok hp
  cases hr₄.symm.trans (getRing_spec ring₄ hring₄)
  obtain ⟨s₅, hs₅, hp⟩ := exists_of_bind_ok hp
  cases hp
  rw [← hlist] at hun
  have hempty := flushReset_emptied { ring₃ with submitList := [] } hun rfl rfl s₅ hs₅
  refine hok₃.emptied hr₃ hempty fun t child ht hp hne => ?_
  obtain ⟨x, hx, hparent, hrelocs⟩ := hback ht
  rw [hparent] at hp
  rw [hrelocs] at hne
  rw [hrings₃]
  exact hchildren t x hx hp hne

theorem Op.run_ok {op : Op} (h : TablesOk s) (hfresh : op.FreshHandle s) (htidy : op.Tidy s) :
    Ensures (op.run s) TablesOk := by
  cases op with
  | boNew handle presumed => exact .ok (h.boNew hfresh)
  | ringNew size handle junk => exact .ok ((h.boNew hfresh).addRing rfl rfl rfl rfl)
  | setParent r parent => exact setParent_ok h htidy
  | emit r data => exact ringEmit_ok h
  | reloc r x => exact emitReloc_ok h htidy
  | getCmd r target targetBo submitOffset size type => exact (getCmd_ok h htidy).mono fun _ hs => hs.1
  | relocRing r target start stop => exact emitRelocRing_ok h htidy.1 htidy.2
  | reset r => exact ringReset_ok h htidy
  | flush r ret fence =>
      exact (getRing_spec.bind fun ring hr => flush_ok h htidy).bind fun _ hp => .pure hp

theorem tablesOk_of_runs (h : Runs State.Init State.TidyStep s) : TablesOk s := by
  refine Runs.induct (fun s hs => .of_init hs) ?_ h
  rintro s s' hs ⟨op, hrun, hfresh, htidy⟩
  exact Op.run_ok hs hfresh htidy s' hrun

/-- In a tidy run every index denotes the buffer in the table of the ring, no table has a buffer twice, and the kernel
    is given only indices of the table that comes with them. -/
theorem submit_tables (h : Runs State.Init State.TidyStep s) :
    (∀ r b flags, NotElsewhere b r s → Ensures (bo2idx r b flags s) fun p => Denotes r b p.1 p.2) ∧
    (∀ r ring, s.ring r = some ring → (ring.bos.rows.map (·.handle)).Nodup) ∧
    ∀ sub ∈ s.submits, sub.Ok := by
  have hok := tablesOk_of_runs h
  exact ⟨fun r b flags helse => (bo2idx_ok hok helse).mono fun _ hp => hp.2.2, fun r ring hr => hok.once hr, hok.submits⟩

/-! ## Two runs -/

theorem State.tidySteps (op : Op) (h : Runs State.Init State.TidyStep s) (hrun : op.run s = .ok s')
    (hfresh : op.FreshHandle s) (htidy : op.Tidy s) : Runs State.Init State.TidyStep s' :=
  h.step ⟨op, hrun, hfresh, htidy⟩

theorem State.steps (op : Op) (h : Runs State.Init State.Step s) (hrun : op.run s = .ok s')
    (hfresh : op.FreshHandle s) : Runs State.Init State.Step s' := h.step ⟨op, hrun, hfresh⟩

theorem TablesOk.ring_two (h : TablesOk s) (htwo : s.freshRing = 2) (hr : s.ring r = some ring) : r = 0 ∨ r = 1 := by
  have hlt : r < s.freshRing := by
    refine Nat.lt_of_not_le fun hge => ?_
    rw [h.freshRing hge] at hr
    cases hr
  rw [htwo] at hlt
  exact Nat.le_one_iff_eq_zero_or_eq_one.mp (Nat.le_of_lt_succ hlt)

/-- Memory that happens to be zero. -/
def noEntries : Nat → SubmitBo := fun _ => { handle := 0, presumed := 0 }

theorem freshHandle_second : (Op.ringNew 64 8 noEntries).FreshHandle (boNew 7 0 (initState false)) := by
  intro b bo hb
  rcases setBo_bo hb with ⟨-, rfl⟩ | ⟨-, hb⟩
  · decide
  · cases hb

theorem freshHandle_third : (Op.ringNew 64 9 noEntries).FreshHandle (ringNew 64 8 noEntries (boNew 7 0 (initState false))) := by
  intro b bo hb
  rcases setBo_bo hb with ⟨-, rfl⟩ | ⟨-, hb⟩
  · decide
  · rcases setBo_bo hb with ⟨-, rfl⟩ | ⟨-, hb⟩
    · decide
    · cases hb

/-- A ring, the target of an indirect call in it, and a relocation in each. -/
theorem submit_tables_target : ∃ s sub, Runs State.Init State.TidyStep s ∧ s.submits = [sub] ∧ sub.bos.length = 3 ∧
    (sub.cmds.map fun cmd => cmd.2.1.length) = [1, 1] ∧ sub.Ok := by
  have h₁ := State.tidySteps (.boNew 7 0) (.init ⟨false, rfl⟩) rfl (by rintro b bo ⟨⟩) trivial
  have h₂ := State.tidySteps (.ringNew 64 8 noEntries) h₁ rfl freshHandle_second trivial
  have h₃ := State.tidySteps (.ringNew 64 9 noEntries) h₂ rfl freshHandle_third trivial
  have h₄ := State.tidySteps (.setParent 1 (some 0)) h₃ rfl trivial (by rintro ring ⟨⟩; rfl)
  have h₅ := State.tidySteps (.reloc 1 { bo := 0 }) h₄ rfl trivial (by
    rintro ring ⟨⟩ t x hx hb
    rcases (tablesOk_of_runs h₄).ring_two rfl hx with rfl | rfl
    · rfl
    · cases hx
      cases hb)
  have h₆ := State.tidySteps (.relocRing 0 1 0 1) h₅ rfl trivial (by
    refine ⟨by rintro ring ⟨⟩; rfl, ?_⟩
    rintro ring ⟨⟩ t x hx hb
    rcases (tablesOk_of_runs h₅).ring_two rfl hx with rfl | rfl
    · rfl
    · cases hx
      cases hb)
  have h₇ := State.tidySteps (.flush 0 0 5) h₆ rfl trivial (by
    rintro ring ⟨⟩
    constructor
    case toplevel => rfl
    case ringBo =>
      intro t x hx hb
      rcases (tablesOk_of_runs h₆).ring_two rfl hx with rfl | rfl
      · rfl
      · cases hx
        cases hb
    case targets =>
      intro t x hmem hx
      obtain rfl := List.mem_singleton.mp hmem
      cases hx
      exact .inl rfl
    case children =>
      intro t x hx _ _
      rcases (tablesOk_of_runs h₆).ring_two rfl hx with rfl | rfl
      · exact .inl rfl
      · exact .inr (List.mem_singleton.mpr rfl))
  exact ⟨_, _, h₇, rfl, rfl, rfl, (submit_tables h₇).2.2 _ (List.mem_singleton.mpr rfl)⟩

/-- Two rings that refer to one buffer: the index that it has is that of another buffer in the second ring. -/
theorem submit_tables_shared : ∃ s idx s', Runs State.Init State.Step s ∧ bo2idx 1 0 0 s = .ok (idx, s') ∧
    ¬ Denotes 1 0 idx s' := by
  have h₁ := State.steps (.boNew 7 0) (.init ⟨false, rfl⟩) rfl (by rintro b bo ⟨⟩)
  have h₂ := State.steps (.ringNew 64 8 noEntries) h₁ rfl freshHandle_second
  have h₃ := State.steps (.ringNew 64 9 noEntries) h₂ rfl freshHandle_third
  have h₄ := State.steps (.reloc 0 { bo := 0 }) h₃ rfl trivial
  have h₅ := State.steps (.reloc 1 { bo := 1 }) h₄ rfl trivial
  refine ⟨_, _, _, h₅, rfl, ?_⟩
  rintro ⟨ring, e, bo, hr, hb, he, hhandle⟩
  cases hr
  cases hb
  cases he
  revert hhandle
  decide

end LibDrm.Freedreno
