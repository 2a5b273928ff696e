/-
# `LibDrm.Decode.Stream` — where the stream goes on behind a 3DPRIMITIVE

What the packet is can be read off its first dword, and the dwords it has off the batch:

    inline              the field of 18 bits, and 2
    sequential          2
    random, counted     1, and a dword for two indices
    random, open        up to the dword that holds the terminator, and that dword

The decoder returns as much for the first three.  For the fourth it returns the *index* of the
terminator's dword, so that this dword is decoded again.  Of the counted indices one is left out
where the test for the last dword of an odd count holds, which is half-way to it.  And a short
packet leaves the vertex state of a clear rectangle behind.
-/
import LibDrm.Decode.Primitive
import Mathlib.Algebra.BigOperators.Group.List.Basic
import Mathlib.Algebra.GroupWithZero.Nat

namespace LibDrm.Decode

/-! ## What the first dword says -/

namespace Window

variable (W : Window)

def inline : Bool := !bit (W.word 0) 23

def random : Bool := bit (W.word 0) 23 && bit (W.word 0) 17

def clearRect : Bool := field (W.word 0) 18 0xf == 0xa

/-- Dwords of an inline packet. -/
def inlineLength : Nat := field (W.word 0) 0 0x3ffff + 2

/-- Of a random packet; 0 is for as many as there are. -/
def indexCount : Nat := field (W.word 0) 0 0xffff

def countedLength : Nat := (W.indexCount + 1) / 2 + 1

/-- The dword holds the index 0xffff. -/
def ends (i : Nat) : Bool := bits (W.word i) 0 0xffff == 0xffff || W.word i >>> 16 == 0xffff

/-- The first dword of the batch that does. -/
def terminator : Option Nat := (List.range' 1 (W.count - 1)).find? W.ends

/-- Indices are counted, and their packet is all there. -/
def counted : Bool := W.random && W.indexCount != 0 && decide (W.countedLength ≤ W.count)

/-- Indices go on up to the terminator, and there is one. -/
def terminated : Bool := W.random && W.indexCount == 0 && W.terminator.isSome

/-- The dwords of the packet, where it is complete in the batch. -/
def primitiveLength : Option Nat :=
  if W.inline then (if W.inlineLength ≤ W.count then some W.inlineLength else none)
  else if W.random then
    if W.indexCount = 0 then W.terminator.map (· + 1)
    else if W.countedLength ≤ W.count then some W.countedLength
    else none
  else if 2 ≤ W.count then some 2
  else none

/-- The decoder finds that the packet is cut off by the end of the batch. -/
def short : Bool :=
  W.inline && decide (W.count < W.inlineLength) || W.random && decide (W.count < W.countedLength)

end Window

/-! ## The lines of the indices -/

def index_fmts : List String := ["    indices: 0x%04x\n", "    indices: 0x%04x, 0x%04x\n"]

/-- The indices in a line that is printed. -/
def Action.indices (count : Nat) : Action → Option (List Arg)
  | .instr i text => if i ≤ count ∧ text.fmt ∈ index_fmts then some text.args else none
  | .print _ => none

def indexLines (count : Nat) (acts : List Action) : List (List Arg) := acts.filterMap (Action.indices count)

/-- Both indices of dword `n + 1` of the packet. -/
def Window.twoIndices (W : Window) (n : Nat) : List Arg := [bits (W.word (n + 1)) 0 0xffff, W.word (n + 1) >>> 16]

/-- The first of them. -/
def Window.oneIndex (W : Window) (n : Nat) : List Arg := [bits (W.word (n + 1)) 0 0xffff]

/-- The indices of the packet, dword by dword: an odd count leaves one in the last. -/
def Window.ownIndices (W : Window) : List (List Arg) :=
  (List.range ((W.indexCount + 1) / 2)).map fun n =>
    if 2 * n + 1 = W.indexCount then W.oneIndex n else W.twoIndices n

/-- As the loop prints them. -/
def Window.shownIndices (W : Window) : List (List Arg) :=
  (List.range ((W.indexCount + 1) / 2)).map fun n =>
    if 2 * n * 2 = W.indexCount - 1 then W.oneIndex n else W.twoIndices n

/-! ## What each form does -/

section Forms

variable {W : Window}

theorem inline_vertices_any (h : W.Paged) (saved : Saved) {len : Nat} (hlen : len ≤ W.count) :
    Prints W (inline_vertices saved len) fun _ _ => True := by
  have hread : ∀ i < len, W.Readable i := fun i hi => h.readable (by omega)
  exact Prints.ite_iff.mpr ⟨fun _ => vertex_data_any hread, fun _ => vertices_any hread saved 0 (by omega)⟩

theorem primitive_inline_spec (h : W.Paged) (type : Nat) (original saved : Saved) :
    Prints W (primitive_inline W type (W.word 0) original saved) fun x _ =>
      x = if W.count < W.inlineLength then (W.count, saved) else (W.inlineLength, saved.restore original) := by
  refine Prints.bind_iff.mpr (instr_out_iff.mpr (Prints.ite_iff.mpr ⟨fun hlt => ?_, fun hlt => ?_⟩))
  · exact Prints.bind_iff.mpr (Prints.bind_iff.mpr (fprintf_iff.mpr (Prints.pure_iff.mpr (Prints.pure_iff.mpr
      (if_pos hlt).symm))))
  · refine Prints.andThen (inline_vertices_any h saved (Nat.le_of_not_lt hlt)) (Prints.pure_iff.mpr ?_)
    exact (if_neg hlt).symm

theorem primitive_sequential_spec (h : W.Paged) (type : Nat) (d : BitVec 32) (original saved : Saved) :
    Prints W (primitive_sequential type d original saved) fun x _ => x = (2, saved.restore original) := by
  refine Prints.bind_iff.mpr (data_iff.mpr ⟨h.readable (by omega), ?_⟩)
  exact Prints.bind_iff.mpr (instr_out_iff.mpr (Prints.bind_iff.mpr (instr_out_iff.mpr (Prints.pure_iff.mpr rfl))))

/-- The search stops at the first dword that holds the terminator. -/
theorem open_indices_spec {xs : List Nat} (hread : ∀ i ∈ xs, W.Readable i) (count : Nat) :
    Prints W (open_indices count xs) fun ret _ => ret = (xs.find? W.ends).getD count := by
  induction xs with
  | nil => exact Prints.bind_iff.mpr (fprintf_iff.mpr (Prints.pure_iff.mpr rfl))
  | cons i xs ih =>
      have hfirst : W.ends i = true → (((i :: xs).find? W.ends).getD count) = i := fun hi => by
        rw [List.find?_cons_of_pos hi, Option.getD_some]
      refine Prints.bind_iff.mpr (data_iff.mpr ⟨hread i List.mem_cons_self, ?_⟩)
      refine Prints.ite_iff.mpr ⟨fun hlo => ?_, fun hlo => Prints.ite_iff.mpr ⟨fun hhi => ?_, fun hhi => ?_⟩⟩
      · refine Prints.bind_iff.mpr (instr_out_iff.mpr (Prints.pure_iff.mpr (hfirst ?_).symm))
        unfold Window.ends
        rw [hlo]
        rfl
      · refine Prints.bind_iff.mpr (instr_out_iff.mpr (Prints.pure_iff.mpr (hfirst ?_).symm))
        unfold Window.ends
        rw [hhi, BEq.rfl, Bool.or_true]
      · refine Prints.bind_iff.mpr (instr_out_iff.mpr ?_)
        have hends : ¬ W.ends i = true := by
          unfold Window.ends
          simp only [Bool.or_eq_true, beq_iff_eq]
          exact fun hor => hor.elim hlo hhi
        rw [List.find?_cons_of_neg hends]
        exact ih fun j hj => hread j (List.mem_cons_of_mem i hj)

/-- The line of round `n`. -/
def countedLine (W : Window) (len n : Nat) : Action :=
  if 2 * n * 2 = len - 1 then .instr (n + 1) ⟨"    indices: 0x%04x\n", W.oneIndex n⟩
  else .instr (n + 1) ⟨"    indices: 0x%04x, 0x%04x\n", W.twoIndices n⟩

theorem counted_indices_spec {len : Nat} (hread : ∀ i < (len + 1) / 2 + 1, W.Readable i) :
    Prints W (counted_indices len) fun _ acts =>
      acts = (List.range ((len + 1) / 2)).flatMap fun n => [countedLine W len n] := by
  refine Prints.forM_log fun n hn => ?_
  have hlt := List.mem_range.mp hn
  refine Prints.bind_iff.mpr (data_iff.mpr ⟨hread (n + 1) (by omega), ?_⟩)
  refine Prints.ite_iff.mpr ⟨fun h => (instr_out_iff).mpr ?_, fun h => (instr_out_iff).mpr ?_⟩
  · rw [countedLine, if_pos h]
    rfl
  · rw [countedLine, if_neg h]
    rfl

theorem countedLine_indices {count len n : Nat} (hn : n + 1 ≤ count) :
    (countedLine W len n).indices count = some (if 2 * n * 2 = len - 1 then W.oneIndex n else W.twoIndices n) := by
  unfold countedLine
  split
  · exact if_pos ⟨hn, List.mem_cons_self⟩
  · exact if_pos ⟨hn, List.mem_cons_of_mem _ List.mem_cons_self⟩

/-- The lines that show indices are those of the loop, and all of them are printed. -/
theorem indexLines_counted {type : String} (hle : W.countedLength ≤ W.count) :
    indexLines W.count (.instr 0 ⟨"3DPRIMITIVE random indirect %s (%d)\n", [type, W.indexCount]⟩ ::
      ((List.range ((W.indexCount + 1) / 2)).flatMap fun n => [countedLine W W.indexCount n])) = W.shownIndices := by
  unfold indexLines Window.shownIndices
  have hhead : ∀ args, (Action.instr 0 ⟨"3DPRIMITIVE random indirect %s (%d)\n", args⟩).indices W.count = none := by
    intro args
    unfold Action.indices
    have hfmt : "3DPRIMITIVE random indirect %s (%d)\n" ∉ index_fmts := by decide
    exact if_neg fun h => hfmt h.2
  rw [List.filterMap_cons_none (hhead _), List.filterMap_flatMap, List.map_eq_flatMap]
  refine List.flatMap_congr fun n hn => ?_
  have hlt := List.mem_range.mp hn
  unfold Window.countedLength at hle
  rw [List.filterMap_cons_some (countedLine_indices (by omega)), List.filterMap_nil]

/-- What a random packet comes to. -/
structure RandomResult (W : Window) (original saved : Saved) (x : Nat × Saved) (acts : List Action) : Prop where
  short : W.count < W.countedLength → x = (W.count, saved)
  kept : ¬ W.count < W.countedLength → x.2 = saved.restore original
  free : ¬ W.count < W.countedLength → W.indexCount = 0 → x.1 = W.terminator.getD W.count
  length : ¬ W.count < W.countedLength → W.indexCount ≠ 0 → x.1 = W.countedLength
  lines : ¬ W.count < W.countedLength → W.indexCount ≠ 0 → indexLines W.count acts = W.shownIndices

theorem primitive_random_spec (h : W.Paged) (type : Nat) (original saved : Saved) :
    Prints W (primitive_random W type (W.word 0) original saved) (RandomResult W original saved) := by
  refine Prints.ite_iff.mpr ⟨fun hlt => ?_, fun hlt => Prints.bind_iff.mpr (instr_out_iff.mpr ?_)⟩
  · have hshort : W.count < W.countedLength := hlt
    refine Prints.bind_iff.mpr (Prints.bind_iff.mpr (fprintf_iff.mpr (Prints.pure_iff.mpr (Prints.pure_iff.mpr ?_))))
    exact ⟨fun _ => rfl, fun hn => absurd hshort hn, fun hn => absurd hshort hn, fun hn => absurd hshort hn,
      fun hn => absurd hshort hn⟩
  · have hlong : ¬ W.count < W.countedLength := hlt
    refine Prints.ite_iff.mpr ⟨fun h₀ => ?_, fun h₀ => ?_⟩
    · refine Prints.bind (open_indices_spec (fun i hi => ?_) W.count) fun ret _ hret => Prints.pure_iff.mpr ?_
      · rw [List.mem_range'_1] at hi
        exact h.readable (by omega)
      · exact ⟨fun hs => absurd hs hlong, fun _ => rfl, fun _ _ => hret, fun _ hne => absurd h₀ hne,
          fun _ hne => absurd h₀ hne⟩
    · refine Prints.bind (counted_indices_spec fun i hi => h.readable ?_) fun _ acts hacts => Prints.pure_iff.mpr ?_
      · unfold Window.countedLength Window.indexCount at hlong
        omega
      · refine ⟨fun hs => absurd hs hlong, fun _ => rfl, fun _ hz => absurd hz h₀, fun _ _ => rfl, fun _ _ => ?_⟩
        rw [List.append_nil, hacts]
        exact indexLines_counted (Nat.le_of_not_lt hlong)

end Forms

/-! ## How many indices are shown -/

/-- The test for a single index holds in one round at most. -/
theorem sum_shown (m k : Nat) :
    ((List.range m).map fun n => if 2 * n * 2 = k then 1 else 2).sum + (if k % 4 = 0 ∧ k / 4 < m then 1 else 0) = 2 * m := by
  induction m with
  | zero =>
      rw [if_neg (fun h => absurd h.2 (Nat.not_lt_zero _))]
      rfl
  | succ m ih =>
      rw [List.range_succ, List.map_append, List.sum_append, List.map_singleton, List.sum_singleton]
      by_cases hm : 2 * m * 2 = k
      · rw [if_neg (by omega)] at ih
        rw [if_pos hm, if_pos (by omega)]
        omega
      · rw [if_neg hm]
        by_cases hk : k % 4 = 0 ∧ k / 4 < m
        · rw [if_pos hk] at ih
          rw [if_pos (by omega)]
          omega
        · rw [if_neg hk] at ih
          rw [if_neg (by omega)]
          omega

theorem length_shownIndices (W : Window) :
    W.shownIndices.flatten.length = W.indexCount ↔ W.indexCount % 2 = 0 ∨ W.indexCount % 4 = 1 := by
  have hlen : W.shownIndices.flatten.length =
      ((List.range ((W.indexCount + 1) / 2)).map fun n => if 2 * n * 2 = W.indexCount - 1 then 1 else 2).sum := by
    rw [Window.shownIndices, List.length_flatten, List.map_map]
    congr 1
    refine List.map_congr_left fun n _ => ?_
    show List.length (if _ then W.oneIndex n else W.twoIndices n) = _
    split <;> rfl
  have hsum := sum_shown ((W.indexCount + 1) / 2) (W.indexCount - 1)
  rw [hlen]
  split at hsum <;> omega

/-- Dword by dword the indices shown are those of the packet. -/
theorem shownIndices_own (W : Window) :
    W.shownIndices = W.ownIndices ↔ W.indexCount % 2 = 0 ∨ W.indexCount = 1 := by
  have hne : ∀ n, W.oneIndex n ≠ W.twoIndices n := fun n h => by
    have hlength : 1 = 2 := congrArg List.length h
    cases hlength
  unfold Window.shownIndices Window.ownIndices
  rw [List.map_inj_left]
  constructor
  · intro h
    -- an odd count leaves one index in the last dword, where the test fails unless it is the only one
    by_cases hodd : W.indexCount % 2 = 0
    · exact .inl hodd
    · have hlast := h ((W.indexCount - 1) / 2) (List.mem_range.mpr (by omega))
      rw [if_pos (show 2 * ((W.indexCount - 1) / 2) + 1 = W.indexCount by omega)] at hlast
      by_cases hone : W.indexCount = 1
      · exact .inr hone
      · rw [if_neg (by omega)] at hlast
        exact absurd hlast.symm (hne _)
  · intro h n hn
    have hlt := List.mem_range.mp hn
    by_cases hlast : 2 * n + 1 = W.indexCount
    · rw [if_pos hlast, if_pos (by omega)]
    · rw [if_neg hlast, if_neg (by omega)]

/-! ## Staying in step -/

/-- The vertex state is left as it was; a complete packet is as long as it is, and has as many
indices printed as it counts. -/
def InStep (W : Window) (saved : Saved) : Prop :=
  Prints W (decode_3d_primitive saved) fun x acts =>
    x.2.s2 = saved.s2 ∧ x.2.s4 = saved.s4 ∧
      ∀ n, W.primitiveLength = some n → x.1 = n ∧
        (W.counted = true → (indexLines W.count acts).flatten.length = W.indexCount)

/-- The saved state is that of a clear rectangle. -/
def Saved.isClear (saved : Saved) : Bool := saved.s2 == ~~~0 && saved.s4 == 3 <<< 6

/-- No clear rectangle is cut off while another state is saved; no terminator is there to be met; and
an odd count of indices is one more than a multiple of four. -/
def Window.Steady (W : Window) (saved : Saved) : Prop :=
  ¬ (W.clearRect = true ∧ W.short = true ∧ saved.isClear = false) ∧ W.terminated = false ∧
    (W.counted = true → W.indexCount % 2 = 0 ∨ W.indexCount % 4 = 1)

/-- The override is seen unless the saved state is the same. -/
theorem override_kept (W : Window) (saved : Saved) :
    (saved.override (field (W.word 0) 18 0xf)).s2 = saved.s2 ∧ (saved.override (field (W.word 0) 18 0xf)).s4 = saved.s4 ↔
      ¬ (W.clearRect = true ∧ saved.isClear = false) := by
  have hclear : W.clearRect = true ↔ field (W.word 0) 18 0xf = 0xa := beq_iff_eq
  rw [hclear]
  by_cases htype : field (W.word 0) 18 0xf = 0xa
  · rw [Saved.override, if_pos htype]
    unfold Saved.isClear
    rw [Bool.and_eq_false_iff, beq_eq_false_iff_ne, beq_eq_false_iff_ne]
    constructor
    · rintro ⟨h₂, h₄⟩ ⟨-, hne⟩
      exact hne.elim (fun hn => hn h₂.symm) fun hn => hn h₄.symm
    · intro h
      by_contra hkept
      refine h ⟨htype, ?_⟩
      by_cases h₂ : saved.s2 = ~~~0
      · exact .inr fun h₄ => hkept ⟨h₂.symm, h₄.symm⟩
      · exact .inl h₂
  · rw [Saved.override, if_neg htype]
    exact ⟨fun _ h => htype h.1, fun _ => ⟨rfl, rfl⟩⟩

section Exits

variable {W : Window} {saved : Saved}

/-- On the exits that go past `out:` the state is as it was. -/
theorem inStep_out {ret : Nat} {acts : List Action} {drawn : Saved} :
    ((ret, drawn.restore saved).2.s2 = saved.s2 ∧ (ret, drawn.restore saved).2.s4 = saved.s4 ∧
      ∀ n, W.primitiveLength = some n → ret = n ∧
        (W.counted = true → (indexLines W.count acts).flatten.length = W.indexCount)) ↔
      ∀ n, W.primitiveLength = some n → ret = n ∧
        (W.counted = true → (indexLines W.count acts).flatten.length = W.indexCount) :=
  ⟨fun h => h.2.2, fun h => ⟨rfl, rfl, h⟩⟩

/-- On the exit of `BUFFER_FAIL` it is as the override left it. -/
theorem inStep_short {acts : List Action} (hlength : W.primitiveLength = none) (hshort : W.short = true)
    (hterminated : W.terminated = false) (hcounted : W.counted = false) :
    ((saved.override (field (W.word 0) 18 0xf)).s2 = saved.s2 ∧ (saved.override (field (W.word 0) 18 0xf)).s4 = saved.s4 ∧
      ∀ n, W.primitiveLength = some n → W.count = n ∧
        (W.counted = true → (indexLines W.count acts).flatten.length = W.indexCount)) ↔ W.Steady saved := by
  have hkept := override_kept W saved
  constructor
  · rintro ⟨h₂, h₄, -⟩
    refine ⟨fun h => hkept.mp ⟨h₂, h₄⟩ ⟨h.1, h.2.2⟩, hterminated, fun h => ?_⟩
    rw [hcounted] at h
    cases h
  · intro h
    obtain ⟨h₂, h₄⟩ := hkept.mpr fun hc => h.1 ⟨hc.1, hshort, hc.2⟩
    refine ⟨h₂, h₄, fun n hn => ?_⟩
    rw [hlength] at hn
    cases hn

theorem steady_of (hshort : W.short = false) (hterminated : W.terminated = false) (hcounted : W.counted = false) :
    W.Steady saved := by
  refine ⟨fun h => ?_, hterminated, fun h => ?_⟩
  · rw [hshort] at h
    cases h.2.1
  · rw [hcounted] at h
    cases h

theorem inStep_inline (h : W.Paged) (hinline : W.inline = true) : InStep W saved ↔ W.Steady saved := by
  have hrandom : W.random = false := by
    unfold Window.inline at hinline
    unfold Window.random
    rw [Bool.not_eq_true'] at hinline
    rw [hinline, Bool.false_and]
  have hterminated : W.terminated = false := by rw [Window.terminated, hrandom, Bool.false_and, Bool.false_and]
  have hcounted : W.counted = false := by rw [Window.counted, hrandom, Bool.false_and, Bool.false_and]
  have hspec : Prints W (decode_3d_primitive saved) fun x _ =>
      x = if W.count < W.inlineLength then (W.count, saved.override (field (W.word 0) 18 0xf))
        else (W.inlineLength, (saved.override (field (W.word 0) 18 0xf)).restore saved) := by
    refine Prints.bind_iff.mpr (ctx_iff.mpr (Prints.bind_iff.mpr (data_iff.mpr ⟨h.readable (by omega), ?_⟩)))
    refine Prints.ite_iff.mpr ⟨fun _ => primitive_inline_spec h _ _ _, fun hn => absurd hinline hn⟩
  refine hspec.iff_of fun x acts hx => ?_
  by_cases hlt : W.count < W.inlineLength
  · rw [if_pos hlt] at hx
    rw [hx]
    refine inStep_short ?_ ?_ hterminated hcounted
    · rw [Window.primitiveLength, if_pos hinline, if_neg (Nat.not_le_of_lt hlt)]
    · rw [Window.short, hinline, Bool.true_and, decide_eq_true hlt, Bool.true_or]
  · rw [if_neg hlt] at hx
    rw [hx, inStep_out]
    have hshort : W.short = false := by
      rw [Window.short, hrandom, Bool.false_and, Bool.or_false, decide_eq_false hlt, Bool.and_false]
    refine iff_of_true (fun n hn => ?_) (steady_of hshort hterminated hcounted)
    rw [Window.primitiveLength, if_pos hinline, if_pos (Nat.le_of_not_lt hlt)] at hn
    refine ⟨Option.some.inj hn, fun hc => ?_⟩
    rw [hcounted] at hc
    cases hc

theorem inStep_sequential (h : W.Paged) (hinline : W.inline = false) (hrandom : W.random = false) :
    InStep W saved ↔ W.Steady saved := by
  have hterminated : W.terminated = false := by rw [Window.terminated, hrandom, Bool.false_and, Bool.false_and]
  have hcounted : W.counted = false := by rw [Window.counted, hrandom, Bool.false_and, Bool.false_and]
  have hshort : W.short = false := by rw [Window.short, hinline, hrandom, Bool.false_and, Bool.false_and, Bool.or_false]
  have h23 : bit (W.word 0) 23 = true := by
    rw [Window.inline, Bool.not_eq_false'] at hinline
    exact hinline
  have hspec : Prints W (decode_3d_primitive saved) fun x _ =>
      x = (2, (saved.override (field (W.word 0) 18 0xf)).restore saved) := by
    refine Prints.bind_iff.mpr (ctx_iff.mpr (Prints.bind_iff.mpr (data_iff.mpr ⟨h.readable (by omega), ?_⟩)))
    refine Prints.ite_iff.mpr ⟨fun hi => absurd (hinline.symm.trans hi) Bool.false_ne_true, fun _ => ?_⟩
    refine Prints.ite_iff.mpr ⟨fun h17 => ?_, fun _ => primitive_sequential_spec h _ _ _ _⟩
    rw [Window.random, h23, h17] at hrandom
    cases hrandom
  refine hspec.iff_of fun x acts hx => ?_
  rw [hx, inStep_out]
  refine iff_of_true (fun n hn => ?_) (steady_of hshort hterminated hcounted)
  rw [Window.primitiveLength, if_neg (ne_true_of_eq_false hinline), if_neg (ne_true_of_eq_false hrandom)] at hn
  refine ⟨?_, fun hc => ?_⟩
  · split at hn
    · exact Option.some.inj hn
    · cases hn
  · rw [hcounted] at hc
    cases hc

theorem inline_of_random (hrandom : W.random = true) : W.inline = false := by
  have h23 := (Bool.and_eq_true_iff.mp (show (bit (W.word 0) 23 && bit (W.word 0) 17) = true from hrandom)).1
  rw [Window.inline, h23, Bool.not_true]

theorem decode_3d_primitive_random (h : W.Paged) (hrandom : W.random = true) :
    Prints W (decode_3d_primitive saved) (RandomResult W saved (saved.override (field (W.word 0) 18 0xf))) := by
  have h17 := (Bool.and_eq_true_iff.mp (show (bit (W.word 0) 23 && bit (W.word 0) 17) = true from hrandom)).2
  have hinline := inline_of_random hrandom
  refine Prints.bind_iff.mpr (ctx_iff.mpr (Prints.bind_iff.mpr (data_iff.mpr ⟨h.readable (by omega), ?_⟩)))
  refine Prints.ite_iff.mpr ⟨fun hi => absurd (hinline.symm.trans hi) Bool.false_ne_true, fun _ => ?_⟩
  exact Prints.ite_iff.mpr ⟨fun _ => primitive_random_spec h _ _ _, fun hn => absurd h17 hn⟩

theorem inStep_random (h : W.Paged) (hrandom : W.random = true) : InStep W saved ↔ W.Steady saved := by
  have hinline := inline_of_random hrandom
  have hlength : W.primitiveLength = if W.indexCount = 0 then W.terminator.map (· + 1)
      else if W.countedLength ≤ W.count then some W.countedLength else none := by
    rw [Window.primitiveLength, if_neg (ne_true_of_eq_false hinline), if_pos hrandom]
  have hshort : W.short = decide (W.count < W.countedLength) := by
    rw [Window.short, hinline, hrandom, Bool.false_and, Bool.false_or, Bool.true_and]
  refine (decode_3d_primitive_random h hrandom).iff_of fun x acts hx => ?_
  by_cases hlt : W.count < W.countedLength
  · -- an open packet is never short
    have hpos : W.indexCount ≠ 0 := fun hz => by
      have := h.pos
      rw [Window.countedLength, hz] at hlt
      omega
    rw [hx.short hlt]
    refine inStep_short ?_ ?_ ?_ ?_
    · rw [hlength, if_neg hpos, if_neg (Nat.not_le_of_lt hlt)]
    · rw [hshort, decide_eq_true hlt]
    · rw [Window.terminated, beq_eq_false_iff_ne.mpr hpos, Bool.and_false, Bool.false_and]
    · rw [Window.counted, decide_eq_false (Nat.not_le_of_lt hlt), Bool.and_false]
  · obtain ⟨ret, after⟩ := x
    have hafter : after = _ := hx.kept hlt
    rw [decide_eq_false hlt] at hshort
    rw [hafter, inStep_out, hlength]
    by_cases hz : W.indexCount = 0
    · have hcounted : W.counted = false := by
        rw [Window.counted, hz, bne_self_eq_false, Bool.and_false, Bool.false_and]
      have hret : ret = W.terminator.getD W.count := hx.free hlt hz
      have hterminated : W.terminated = W.terminator.isSome := by
        rw [Window.terminated, hrandom, hz, BEq.rfl, Bool.true_and, Bool.true_and]
      rw [if_pos hz]
      cases hfound : W.terminator with
      | none =>
          rw [hfound] at hterminated
          exact iff_of_true nofun (steady_of hshort hterminated hcounted)
      | some i =>
          rw [hfound] at hret hterminated
          refine iff_of_false (fun hall => ?_) fun hsteady => ?_
          · have hone : ret = i + 1 := (hall (i + 1) rfl).1
            rw [hret, Option.getD_some] at hone
            omega
          · cases hterminated.symm.trans hsteady.2.1
    · have hcounted : W.counted = true := by
        rw [Window.counted, hrandom, bne_iff_ne.mpr hz, decide_eq_true (Nat.le_of_not_lt hlt)]
        rfl
      have hterminated : W.terminated = false := by
        rw [Window.terminated, beq_eq_false_iff_ne.mpr hz, Bool.and_false, Bool.false_and]
      have hret : ret = W.countedLength := hx.length hlt hz
      rw [if_neg hz, if_pos (Nat.le_of_not_lt hlt), hx.lines hlt hz, length_shownIndices]
      constructor
      · intro hall
        refine ⟨fun hs => ?_, hterminated, fun hc => (hall _ rfl).2 hc⟩
        rw [hshort] at hs
        cases hs.2.1
      · intro hsteady n hn
        exact ⟨hret.trans (Option.some.inj hn), hsteady.2.2⟩

theorem inStep_iff (h : W.Paged) : InStep W saved ↔ W.Steady saved := by
  cases hinline : W.inline with
  | true => exact inStep_inline h hinline
  | false =>
      cases hrandom : W.random with
      | true => exact inStep_random h hrandom
      | false => exact inStep_sequential h hinline hrandom

/-- Where an odd count leaves out an index, it shows the ones behind it in their places, and a half that is not
the packet's. -/
theorem own_indices_iff (h : W.Paged) (hcounted : W.counted = true) :
    Prints W (decode_3d_primitive saved) (fun _ acts => indexLines W.count acts = W.ownIndices) ↔
      W.indexCount % 2 = 0 ∨ W.indexCount = 1 := by
  unfold Window.counted at hcounted
  rw [Bool.and_eq_true_iff, Bool.and_eq_true_iff, bne_iff_ne, decide_eq_true_iff] at hcounted
  obtain ⟨⟨hrandom, hpos⟩, hle⟩ := hcounted
  refine (decode_3d_primitive_random h hrandom).iff_of fun x acts hx => ?_
  rw [hx.lines (Nat.not_lt_of_le hle) hpos, shownIndices_own]

end Exits

theorem decode_3d_primitive_in_step (W : Window) (h : W.Paged) (saved : Saved) :
    (InStep W saved ↔ W.Steady saved) ∧
      (W.counted = true →
        (Prints W (decode_3d_primitive saved) (fun _ acts => indexLines W.count acts = W.ownIndices) ↔
          W.indexCount % 2 = 0 ∨ W.indexCount = 1)) :=
  ⟨inStep_iff h, own_indices_iff h⟩

/-- A 915, whose batch is what is left. -/
def i915 : Chipset := ⟨false, true, false, false, false, false, false⟩

/-- The scratch page. -/
def page : List (BitVec 32) := List.replicate 1024 0xd0d0d0d0

/-- A batch and the page are a window. -/
theorem paged_of_batch (devid : Chipset) {batch : List (BitVec 32)} (hpos : 0 < batch.length) :
    (⟨devid, batch ++ page, 0, batch.length⟩ : Window).Paged := by
  refine ⟨hpos, ?_⟩
  have hlen : (batch ++ page).length = batch.length + 1024 := by rw [List.length_append, page, List.length_replicate]
  show 0 + batch.length + 1024 ≤ (batch ++ page).length
  omega

/-- Nothing is saved. -/
def unset : Saved := ⟨0, 0, false, true⟩

theorem decode_3d_primitive_in_step_counted :
    (InStep ⟨i915, [0x7f820005, 0x00010000, 0x00030002, 0x00000004] ++ page, 0, 4⟩ unset ↔
      Window.Steady ⟨i915, [0x7f820005, 0x00010000, 0x00030002, 0x00000004] ++ page, 0, 4⟩ unset) :=
  (decode_3d_primitive_in_step ⟨i915, [0x7f820005, 0x00010000, 0x00030002, 0x00000004] ++ page, 0, 4⟩
    (paged_of_batch i915 (by decide)) unset).1

/-- An open packet of two dwords, whose second is decoded again as a command. -/
theorem decode_3d_primitive_out_of_step : ¬ InStep ⟨i915, [0x7f820000, 0xffff0001] ++ page, 0, 2⟩ unset := by
  intro h
  have hsteady := (inStep_iff (paged_of_batch i915 (by decide))).mp h
  exact absurd hsteady.2.1 (by decide)

end LibDrm.Decode
