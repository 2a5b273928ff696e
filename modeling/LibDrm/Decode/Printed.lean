/-
# `LibDrm.Decode.Printed` — the dwords that are printed

A decoder asks `instr_out` for dword `k` of the batch, counted from its start.

    k < base_count      the dword is printed, with its address
    k = base_count      the first dword of the scratch page is: the check lets it through
    k > base_count      nothing is, and the context overflows; the error is printed unless it
                        had overflowed before, be it in an earlier decode
-/
import LibDrm.Decode.Safety

namespace LibDrm.Decode

/-- Some decoder asks for dword `k`. -/
def Asked (c : Context) (saved : Saved) (overflowed : Bool) (k : Nat) : Prop :=
  ∃ w index s acts i text, Head c saved overflowed w ∧ Decodes c w index s acts ∧ Action.instr i text ∈ acts ∧
    k = w.data + i

/-- A line of a dword is that of a dword of the batch. -/
def Line.OfBatch (c : Context) : Line → Prop
  | .dword offset _ value _ _ =>
      ∃ k < c.base_count, offset = c.base_hw_offset + BitVec.ofNat 32 (4 * k) ∧ c.base_data[k]? = some value
  | .beyond => True
  | .text _ => True

/-- Only the batch is printed, and an error if more was asked for. -/
def OnlyBatch (c : Context) (saved : Saved) (overflowed : Bool) : Prop :=
  ∀ w, drm_intel_decode c saved overflowed = .ok w →
    (∀ line ∈ w.out, line.OfBatch c) ∧ ∀ k, Asked c saved overflowed k → c.base_count ≤ k → .beyond ∈ w.out

section Loops

variable {c : Context} {saved : Saved} {overflowed : Bool}

/-! ## From the head of the loop to its end -/

/-- The decode goes on from any head of its loop. -/
theorem resume {w : Cursor} (h : Head c saved overflowed w) :
    ∃ fuel, w.count ≤ fuel ∧ drm_intel_decode c saved overflowed = decode_loop c fuel w := by
  induction h with
  | init hstart =>
      refine ⟨_, Nat.le_refl _, ?_⟩
      unfold drm_intel_decode
      rw [hstart]
      rfl
  | @step w w' hhead hround ih =>
      obtain ⟨fuel, hfuel, heq⟩ := ih
      obtain ⟨hpos, hr⟩ := hround
      obtain ⟨r, hr', hless⟩ := round_spec (head_agrees hhead) hpos
      cases hr'.symm.trans hr
      have hlt : w'.count < w.count := (hless rfl).2
      obtain ⟨n, rfl⟩ : ∃ n, fuel = n + 1 := ⟨fuel - 1, by omega⟩
      refine ⟨n, by omega, heq.trans ?_⟩
      show (if w.count > 0 then _ else _) = _
      rw [if_pos hpos, hr]
      rfl

/-- An invariant of the rounds holds at the end: it is kept by the printing of a packet, and by the move behind it. -/
theorem decode_loop_induct {I : Cursor → Prop}
    (hprint : ∀ w index s acts, Head c saved overflowed w → I w → Decodes c w index s acts → I (w.after c s acts))
    (hmove : ∀ w index, I w → I (w.move index)) {fuel : Nat} {w w' : Cursor} (hhead : Head c saved overflowed w) (hI : I w)
    (h : decode_loop c fuel w = .ok w') : I w' := by
  induction fuel generalizing w with
  | zero =>
      unfold decode_loop at h
      split at h <;> cases h
      exact hI
  | succ fuel ih =>
      unfold decode_loop at h
      by_cases hpos : w.count > 0
      · rw [if_pos hpos] at h
        obtain ⟨index, s, acts, hd, -⟩ := decodes (head_agrees hhead) hpos
        have hround := round_eq (head_agrees hhead) hd
        have hafter := hprint w index s acts hhead hI hd
        by_cases hlt : w.count < index
        · rw [if_pos hlt] at hround
          rw [hround] at h
          cases h
          exact hafter
        · rw [if_neg hlt] at hround
          rw [hround] at h
          exact ih (hhead.step ⟨hpos, hround⟩) (hmove _ index hafter) h
      · rw [if_neg hpos] at h
        cases h
        exact hI

/-- The same of a whole decode. -/
theorem decode_induct {I : Cursor → Prop} (hstart : ∀ w, start c saved overflowed = .ok w → I w)
    (hprint : ∀ w index s acts, Head c saved overflowed w → I w → Decodes c w index s acts → I (w.after c s acts))
    (hmove : ∀ w index, I w → I (w.move index)) {w' : Cursor} (h : drm_intel_decode c saved overflowed = .ok w') : I w' := by
  obtain ⟨w, hw, hloop⟩ := exists_of_bind_ok h
  exact decode_loop_induct hprint hmove (.init hw) (hstart w hw) hloop

/-- What holds once the packet at a head is printed, and is kept, holds at the end. -/
theorem decode_of_head {I : Cursor → Prop} {w w' : Cursor} {index : Nat} {s : Saved} {acts : List Action}
    (hhead : Head c saved overflowed w) (hd : Decodes c w index s acts) (hI : I (w.after c s acts))
    (hprint : ∀ w index s acts, Head c saved overflowed w → I w → Decodes c w index s acts → I (w.after c s acts))
    (hmove : ∀ w index, I w → I (w.move index)) (h : drm_intel_decode c saved overflowed = .ok w') : I w' := by
  obtain ⟨fuel, hfuel, heq⟩ := resume hhead
  obtain ⟨n, rfl⟩ : ∃ n, fuel = n + 1 := ⟨fuel - 1, by have := hd.1; omega⟩
  rw [heq] at h
  have hround := round_eq (head_agrees hhead) hd
  unfold decode_loop at h
  rw [if_pos hd.1] at h
  by_cases hlt : w.count < index
  · rw [if_pos hlt] at hround
    rw [hround] at h
    cases h
    exact hI
  · rw [if_neg hlt] at hround
    rw [hround] at h
    exact decode_loop_induct hprint hmove (hhead.step ⟨hd.1, hround⟩) (hmove _ index hI) h

/-- A property of what is printed that the printing of any action keeps. -/
theorem acts_induct {I : Cursor → Prop} {w : Cursor} {acts : List Action} (hI : I w)
    (hact : ∀ w' a, a ∈ acts → Still w w' → I w' → I (w'.act c a)) : I (acts.foldl (Cursor.act c) w) := by
  have loop : ∀ (rest : List Action) (w' : Cursor), (∀ a ∈ rest, a ∈ acts) → Still w w' → I w' →
      I (rest.foldl (Cursor.act c) w') := by
    intro rest
    induction rest with
    | nil => exact fun _ _ _ h => h
    | cons a rest ih =>
        intro w' hmem hstill h
        have ha := hmem a List.mem_cons_self
        exact ih (w'.act c a) (fun b hb => hmem b (List.mem_cons_of_mem a hb)) (hstill.trans (act_still w' a))
          (hact w' a ha hstill h)
  exact loop acts w (fun _ ha => ha) (.refl w) hI

/-! ## What is printed was asked for -/

/-- The line is that of a dword asked for, at most one behind the batch. -/
def Shown (c : Context) (saved : Saved) (overflowed : Bool) : Line → Prop
  | .dword offset _ value _ _ =>
      ∃ k ≤ c.base_count, Asked c saved overflowed k ∧ offset = c.base_hw_offset + BitVec.ofNat 32 (4 * k) ∧
        value = c.copy.getD k 0
  | .beyond => True
  | .text _ => True

/-- The line of dword `index` is that of dword `data + index` of the batch. -/
theorem line_eq {w w' : Cursor} (hw : w.Agrees c) (hoffset : w'.hw_offset = w.hw_offset) (hdata : w'.data = w.data)
    (index : Nat) (text : Text) :
    ∃ mark, w'.line c index text =
      .dword (c.base_hw_offset + BitVec.ofNat 32 (4 * (w.data + index))) mark (c.copy.getD (w.data + index) 0)
        (index == 0) text := by
  have haddress : w'.hw_offset + BitVec.ofNat 32 (4 * index) = c.base_hw_offset + BitVec.ofNat 32 (4 * (w.data + index)) := by
    rw [hoffset, hw.hw_offset, Nat.mul_add, BitVec.ofNat_add, BitVec.add_assoc]
  have hvalue : (w'.window c).word index = c.copy.getD (w.data + index) 0 := by
    show c.copy.getD (w'.data + index) 0 = _
    rw [hdata]
  unfold Cursor.line
  rw [haddress, hvalue]
  exact ⟨_, rfl⟩

theorem shown_after {w : Cursor} {index : Nat} {s : Saved} {acts : List Action} (hhead : Head c saved overflowed w)
    (hout : ∀ line ∈ w.out, Shown c saved overflowed line) (hd : Decodes c w index s acts) :
    ∀ line ∈ (w.after c s acts).out, Shown c saved overflowed line := by
  have hw := head_agrees hhead
  refine acts_induct (I := fun w' => ∀ line ∈ w'.out, Shown c saved overflowed line) hout ?_
  intro w' a ha hstill hout' line hline
  have hcount : w'.count = w.count := hstill.count
  cases a with
  | print text =>
      rcases List.mem_append.mp hline with h | h
      · exact hout' line h
      · rw [List.mem_singleton.mp h]
        trivial
  | instr i text =>
      change line ∈ (if i > w'.count then w'.beyond else w'.print (w'.line c i text)).out at hline
      by_cases hbeyond : i > w'.count
      · rw [if_pos hbeyond] at hline
        unfold Cursor.beyond at hline
        split at hline
        · exact hout' line hline
        · rcases List.mem_append.mp hline with h | h
          · exact hout' line h
          · rw [List.mem_singleton.mp h]
            trivial
      · rw [if_neg hbeyond] at hline
        rcases List.mem_append.mp hline with h | h
        · exact hout' line h
        · obtain ⟨mark, heq⟩ := line_eq hw hstill.hw_offset hstill.data i text
          rw [List.mem_singleton.mp h, heq]
          have hagree := hw.count
          exact ⟨w.data + i, by omega, ⟨w, index, s, acts, i, text, hhead, hd, ha, rfl⟩, rfl, rfl⟩

theorem shown_of_decode {w : Cursor} (h : drm_intel_decode c saved overflowed = .ok w) :
    ∀ line ∈ w.out, Shown c saved overflowed line := by
  refine decode_induct (I := fun w => ∀ line ∈ w.out, Shown c saved overflowed line) (fun w hw => ?_)
    (fun w index s acts hhead hI hd => shown_after hhead hI hd) (fun _ _ hI => hI) h
  unfold start at hw
  split at hw <;> cases hw
  exact fun line hline => absurd hline List.not_mem_nil

/-! ## What was asked for is printed, or overflows -/

/-- What is printed stays, and an overflow does too. -/
structure Later (w w' : Cursor) : Prop where
  out : ∀ line ∈ w.out, line ∈ w'.out
  overflowed : w.overflowed = true → w'.overflowed = true

theorem Later.trans {w₁ w₂ w₃ : Cursor} (h₁ : Later w₁ w₂) (h₂ : Later w₂ w₃) : Later w₁ w₃ :=
  ⟨fun line hl => h₂.out line (h₁.out line hl), fun ho => h₂.overflowed (h₁.overflowed ho)⟩

theorem act_later (w : Cursor) (a : Action) : Later w (w.act c a) := by
  have hprint : ∀ line, Later w (w.print line) := fun line => ⟨fun l hl => List.mem_append_left _ hl, id⟩
  cases a with
  | print text => exact hprint _
  | instr i text =>
      show Later w (if i > w.count then w.beyond else w.print (w.line c i text))
      split
      · unfold Cursor.beyond
        split
        · exact ⟨fun _ hl => hl, id⟩
        · exact ⟨fun l hl => List.mem_append_left _ hl, fun _ => rfl⟩
      · exact hprint _

theorem acts_later (w : Cursor) (acts : List Action) : Later w (acts.foldl (Cursor.act c) w) :=
  acts_induct (I := Later w) ⟨fun _ hl => hl, id⟩ fun w' a _ _ h => h.trans (act_later w' a)

/-- The dword is printed, or the context has overflowed. -/
def Answered (c : Context) (k : Nat) (w : Cursor) : Prop :=
  (k ≤ c.base_count → ∃ mark first text,
    .dword (c.base_hw_offset + BitVec.ofNat 32 (4 * k)) mark (c.copy.getD k 0) first text ∈ w.out) ∧
  (c.base_count < k → w.overflowed = true)

theorem Answered.later {k : Nat} {w w' : Cursor} (h : Answered c k w) (hlater : Later w w') : Answered c k w' := by
  refine ⟨fun hk => ?_, fun hk => hlater.overflowed (h.2 hk)⟩
  obtain ⟨mark, first, text, hline⟩ := h.1 hk
  exact ⟨mark, first, text, hlater.out _ hline⟩

theorem after_later (w : Cursor) (s : Saved) (acts : List Action) : Later w (w.after c s acts) :=
  @Later.trans w { w with saved := s } _ ⟨fun _ hl => hl, id⟩ (acts_later _ acts)

/-- The action of the request answers it. -/
theorem answered_act {w w' : Cursor} (hw : w.Agrees c) (hoffset : w'.hw_offset = w.hw_offset) (hdata : w'.data = w.data)
    (hcount : w'.count = w.count) (i : Nat) (text : Text) : Answered c (w.data + i) (w'.act c (.instr i text)) := by
  have hagree := hw.count
  show Answered c (w.data + i) (if i > w'.count then w'.beyond else w'.print (w'.line c i text))
  by_cases hbeyond : i > w'.count
  · rw [if_pos hbeyond]
    refine ⟨fun hk => by omega, fun _ => ?_⟩
    unfold Cursor.beyond
    split
    · assumption
    · rfl
  · rw [if_neg hbeyond]
    refine ⟨fun _ => ?_, fun hk => by omega⟩
    obtain ⟨mark, heq⟩ := line_eq hw hoffset hdata i text
    refine ⟨mark, i == 0, text, List.mem_append_right _ ?_⟩
    rw [heq]
    exact List.mem_singleton.mpr rfl

theorem answered_after {w : Cursor} {s : Saved} {acts : List Action} (hw : w.Agrees c) {i : Nat} {text : Text}
    (ha : Action.instr i text ∈ acts) : Answered c (w.data + i) (w.after c s acts) := by
  obtain ⟨l₁, l₂, rfl⟩ := List.append_of_mem ha
  unfold Cursor.after
  rw [List.foldl_append, List.foldl_cons]
  have hstill := acts_still (c := c) { w with saved := s } l₁
  exact (answered_act hw hstill.hw_offset hstill.data hstill.count i text).later (acts_later _ l₂)

theorem answered_of_decode {w : Cursor} (h : drm_intel_decode c saved overflowed = .ok w) {k : Nat}
    (hk : Asked c saved overflowed k) : Answered c k w := by
  obtain ⟨w₀, index, s, acts, i, text, hhead, hd, ha, rfl⟩ := hk
  refine decode_of_head (I := Answered c (w₀.data + i)) hhead hd (answered_after (head_agrees hhead) ha) ?_
    (fun _ _ hI => hI) h
  exact fun w index s acts _ hI _ => hI.later (after_later w s acts)

/-! ## The error is printed once -/

/-- The context overflows for the first time if and only if the error is printed. -/
structure Told (overflowed : Bool) (w : Cursor) : Prop where
  before : overflowed = true → w.overflowed = true ∧ .beyond ∉ w.out
  now : overflowed = false → w.overflowed = true → .beyond ∈ w.out

theorem told_act {w : Cursor} (h : Told overflowed w) (a : Action) : Told overflowed (w.act c a) := by
  have hprint : ∀ line, line ≠ .beyond → Told overflowed (w.print line) := by
    intro line hne
    refine ⟨fun ho => ⟨(h.before ho).1, fun hmem => ?_⟩, fun ho hov => List.mem_append_left _ (h.now ho hov)⟩
    rcases List.mem_append.mp hmem with hl | hl
    · exact (h.before ho).2 hl
    · exact hne (List.mem_singleton.mp hl).symm
  cases a with
  | print text => exact hprint _ nofun
  | instr i text =>
      show Told overflowed (if i > w.count then w.beyond else w.print (w.line c i text))
      split
      · unfold Cursor.beyond
        split
        · exact h
        · rename_i hov
          exact ⟨fun ho => absurd (h.before ho).1 hov, fun _ _ => List.mem_append_right _ (List.mem_singleton.mpr rfl)⟩
      · exact hprint _ nofun

theorem told_of_decode {w : Cursor} (h : drm_intel_decode c saved overflowed = .ok w) : Told overflowed w := by
  refine decode_induct (I := Told overflowed) (fun w hw => ?_) (fun w index s acts _ hI _ => ?_) (fun _ _ hI => ⟨hI.1, hI.2⟩) h
  · unfold start at hw
    split at hw <;> cases hw
    refine ⟨fun ho => ⟨ho, List.not_mem_nil⟩, fun ho hov => ?_⟩
    exact absurd (ho.symm.trans hov) Bool.false_ne_true
  · exact acts_induct (I := Told overflowed) ⟨hI.1, hI.2⟩ fun w' a _ _ hI' => told_act hI' a

/-! ## Only the batch -/

theorem fits_of_start {w : Cursor} (h : start c saved overflowed = .ok w) : 4 * c.base_count + 4096 < 2 ^ 31 := by
  unfold start at h
  split at h
  · assumption
  · cases h

/-- Where a dword is asked for, the decode has been started. -/
theorem started_of_head {w : Cursor} (h : Head c saved overflowed w) : ∃ w₀, start c saved overflowed = .ok w₀ := by
  induction h with
  | init hstart => exact ⟨_, hstart⟩
  | step _ _ ih => exact ih

theorem decode_of_start {w : Cursor} (h : start c saved overflowed = .ok w) :
    ∃ w', drm_intel_decode c saved overflowed = .ok w' := by
  obtain ⟨w', hw', -⟩ := decode_loop_returns (start_agrees h) (Nat.le_refl w.count)
  refine ⟨w', ?_⟩
  unfold drm_intel_decode
  rw [h]
  exact hw'

/-- In a batch of an `int`'s size no two dwords have one address. -/
theorem offset_injective {k k' : Nat} (hk : 4 * k < 2 ^ 32) (hk' : 4 * k' < 2 ^ 32)
    (h : c.base_hw_offset + BitVec.ofNat 32 (4 * k) = c.base_hw_offset + BitVec.ofNat 32 (4 * k')) : k = k' := by
  have hnat := congrArg BitVec.toNat ((BitVec.add_right_inj _).mp h)
  rw [BitVec.toNat_ofNat, BitVec.toNat_ofNat, Nat.mod_eq_of_lt hk, Nat.mod_eq_of_lt hk'] at hnat
  omega

theorem only_batch_iff : OnlyBatch c saved overflowed ↔
    ¬ Asked c saved overflowed c.base_count ∧
      (overflowed = true → ∀ k, c.base_count < k → ¬ Asked c saved overflowed k) := by
  constructor
  · intro h
    constructor
    · intro hasked
      have ⟨w₀, _, _, _, _, _, hhead, _⟩ := hasked
      obtain ⟨w, hstart⟩ := started_of_head hhead
      obtain ⟨w', hw'⟩ := decode_of_start hstart
      have hfits := fits_of_start hstart
      obtain ⟨mark, first, text, hline⟩ := (answered_of_decode hw' hasked).1 (Nat.le_refl _)
      obtain ⟨k, hk, hoffset, -⟩ := (h w' hw').1 _ hline
      have := offset_injective (by omega) (by omega) hoffset
      omega
    · intro ho k hk hasked
      have ⟨w₀, _, _, _, _, _, hhead, _⟩ := hasked
      obtain ⟨w, hstart⟩ := started_of_head hhead
      obtain ⟨w', hw'⟩ := decode_of_start hstart
      exact ((told_of_decode hw').before ho).2 ((h w' hw').2 k hasked (by omega))
  · rintro ⟨hnext, hbeyond⟩ w hw
    refine ⟨fun line hline => ?_, fun k hasked hk => ?_⟩
    · have hshown := shown_of_decode hw line hline
      cases line with
      | beyond => trivial
      | text text => trivial
      | dword offset mark value first text =>
          obtain ⟨k, hk, hasked, hoffset, hvalue⟩ := hshown
          have hlt : k < c.base_count := by
            refine Nat.lt_of_le_of_ne hk fun heq => hnext ?_
            rw [heq] at hasked
            exact hasked
          refine ⟨k, hlt, hoffset, ?_⟩
          have hlt' : k < c.base_data.length := hlt
          rw [hvalue, Context.copy, List.getD_eq_getElem?_getD, List.getElem?_append_left hlt', List.getElem?_eq_getElem hlt',
            Option.getD_some]
    · have hlt : c.base_count < k := by
        refine Nat.lt_of_le_of_ne hk fun heq => hnext ?_
        rw [heq]
        exact hasked
      have hov := (answered_of_decode hw hasked).2 hlt
      cases ho : overflowed with
      | true => exact absurd hasked (hbeyond ho k hlt)
      | false => exact (told_of_decode hw).now ho hov

end Loops

theorem decode_only_batch (c : Context) (saved : Saved) (overflowed : Bool) :
    OnlyBatch c saved overflowed ↔
      ¬ Asked c saved overflowed c.base_count ∧
        (overflowed = true → ∀ k, c.base_count < k → ¬ Asked c saved overflowed k) := only_batch_iff

/-- `MI_LOAD_REGISTER_IMM` in the only dword of its batch. -/
def cut : Context := ⟨i915, [0x11000001], 0, 0, 0, false⟩

theorem decodes_cut : Decodes cut ⟨0, 0, 1, unset, false, []⟩ 3 unset
    [.instr 0 ⟨"%s\n", [.str "MI_LOAD_REGISTER_IMM"]⟩, .instr 1 ⟨"dword %d\n", [.word 1]⟩,
     .instr 2 ⟨"dword %d\n", [.word 2]⟩] :=
  ⟨by decide, by decide +kernel⟩

/-- The first dword of the scratch page is printed. -/
theorem decode_prints_scratch : ¬ OnlyBatch cut unset false := by
  intro h
  exact (only_batch_iff.mp h).1 ⟨_, _, _, _, 1, ⟨"dword %d\n", [.word 1]⟩, .init (if_pos (by decide)), decodes_cut,
    List.mem_cons_of_mem _ List.mem_cons_self, rfl⟩

end LibDrm.Decode
