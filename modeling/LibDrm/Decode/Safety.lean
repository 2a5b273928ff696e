/-
# `LibDrm.Decode.Safety` — every batch is decoded, within the copy and its page

At the head of the loop the copy from `data` on is what is left of the batch and the scratch page, so
that a read is in range as far as 1024 dwords behind what is left.  No decoder reads further, each
goes on by a dword at least, and so the loop comes to its end within as many rounds as there are
dwords.
-/
import LibDrm.Decode.Batch
import LibDrm.Decode.Stream

namespace LibDrm.Decode

/-! ## The decoders of the packets -/

section Packets

variable {W : Window}

theorem decode_3d_primitive_spec (h : W.Paged) (saved : Saved) :
    Prints W (decode_3d_primitive saved) fun ret _ => 1 ≤ ret.1 := by
  have hpos := h.pos
  refine Prints.bind_iff.mpr (ctx_iff.mpr (Prints.bind_iff.mpr (data_iff.mpr ⟨h.readable (by omega), ?_⟩)))
  refine Prints.ite_iff.mpr ⟨fun _ => ?_, fun _ => Prints.ite_iff.mpr ⟨fun _ => ?_, fun _ => ?_⟩⟩
  · refine (primitive_inline_spec h _ _ _).mono fun ret _ hret => ?_
    rw [hret]
    split
    · exact hpos
    · exact Nat.le_add_left 1 _
  · refine (primitive_random_spec h _ _ _).mono fun ret _ hret => ?_
    by_cases hlt : W.count < W.countedLength
    · rw [hret.short hlt]
      exact hpos
    · by_cases hz : W.indexCount = 0
      · rw [hret.free hlt hz]
        cases hfound : W.terminator with
        | none => exact hpos
        | some i => exact (List.mem_range'_1.mp (List.mem_of_find?_eq_some hfound)).1
      · rw [hret.length hlt hz]
        exact Nat.le_add_left 1 _
  · refine (primitive_sequential_spec h _ _ _ _).mono fun ret _ hret => ?_
    rw [hret]
    exact Nat.le_succ 1

theorem decode_3d_table_spec (h : W.Paged) (rows : List Opcode) (unknown : String) (saved : Saved) :
    Prints W (decode_3d_table rows unknown saved) fun ret _ => 1 ≤ ret.1 := by
  refine Prints.bind_iff.mpr (data_iff.mpr ⟨h.readable (by omega), ?_⟩)
  dsimp only
  split
  · exact decode_3d_primitive_spec h saved
  · exact decode_3d_1d_spec h saved
  · exact (decode_3d_1c_spec h).bind fun _ _ hlen => Prints.pure_iff.mpr hlen
  · split
    · exact (decode_row_spec _ _ _).bind fun _ _ hlen => Prints.pure_iff.mpr hlen
    · exact Prints.bind_iff.mpr (instr_out_iff.mpr (Prints.pure_iff.mpr (Nat.le_refl 1)))

theorem mi_index_spec (dump_past_end : Bool) {ret : Int} (hret : 1 ≤ ret ∨ ret = -1) :
    Prints W (mi_index dump_past_end W.count ret) fun index _ => 1 ≤ index := by
  refine Prints.ite_iff.mpr ⟨fun _ => Prints.ite_iff.mpr ⟨fun _ => ?_, fun _ => ?_⟩, fun hne => ?_⟩
  · exact Prints.pure_iff.mpr (Nat.le_refl 1)
  · exact Prints.andThen (Prints.forM fun _ _ => (instr_out_iff).mpr trivial) (Prints.pure_iff.mpr (by omega))
  · exact Prints.pure_iff.mpr (by omega)

theorem decode_packet_spec (h : W.Paged) (dump_past_end : Bool) (saved : Saved) :
    Prints W (decode_packet dump_past_end saved) fun ret _ => 1 ≤ ret.1 := by
  refine Prints.bind_iff.mpr (ctx_iff.mpr (Prints.bind_iff.mpr (data_iff.mpr ⟨h.readable (by omega), ?_⟩)))
  split
  · refine (decode_mi_spec h).bind fun ret _ hret => ?_
    refine (mi_index_spec dump_past_end (hret.imp_right fun hend => hend.1)).bind fun index _ hindex => ?_
    exact Prints.pure_iff.mpr hindex
  · exact (decode_2d_spec h).bind fun _ _ hindex => Prints.pure_iff.mpr hindex
  · refine Prints.ite_iff.mpr ⟨fun _ => ?_, fun _ => Prints.ite_iff.mpr ⟨fun _ => ?_, fun _ => ?_⟩⟩
    · exact (decode_3d_965_spec h).bind fun _ _ hindex => Prints.pure_iff.mpr hindex
    · exact decode_3d_table_spec h _ _ saved
    · exact decode_3d_table_spec h _ _ saved
  · exact Prints.bind_iff.mpr (instr_out_iff.mpr (Prints.pure_iff.mpr (Nat.le_refl 1)))

end Packets

/-! ## One round -/

/-- `data`, `count` and `hw_offset` agree on how far the decoding has come. -/
structure Cursor.Agrees (c : Context) (w : Cursor) : Prop where
  count : w.data + w.count = c.base_count
  hw_offset : w.hw_offset = c.base_hw_offset + BitVec.ofNat 32 (4 * w.data)

section Rounds

variable {c : Context} {w : Cursor}

theorem length_copy (c : Context) : c.copy.length = c.base_count + 1024 := by
  unfold Context.copy Context.base_count
  rw [List.length_append, List.length_replicate]

/-- What can be read is what is left, and the page. -/
theorem Cursor.Agrees.readable_iff (h : w.Agrees c) (i : Nat) :
    (w.window c).Readable i ↔ i < w.count + 1024 := by
  have hcount := h.count
  have hlength := length_copy c
  unfold Window.Readable
  show w.data + i < c.copy.length ↔ _
  omega

theorem Cursor.Agrees.paged (h : w.Agrees c) (hpos : 0 < w.count) : (w.window c).Paged := by
  refine ⟨hpos, ?_⟩
  have hcount := h.count
  have hlength := length_copy c
  show w.data + w.count + 1024 ≤ c.copy.length
  omega

/-- What printing comes to, where every line can be read. -/
def Cursor.act (c : Context) (w : Cursor) : Action → Cursor
  | .print text => w.print (.text text)
  | .instr index text => if index > w.count then w.beyond else w.print (w.line c index text)

/-- Printing does not move the cursor. -/
structure Still (w w' : Cursor) : Prop where
  hw_offset : w'.hw_offset = w.hw_offset
  data : w'.data = w.data
  count : w'.count = w.count
  saved : w'.saved = w.saved

theorem Still.refl (w : Cursor) : Still w w := ⟨rfl, rfl, rfl, rfl⟩

theorem Still.trans {w₁ w₂ w₃ : Cursor} (h₁ : Still w₁ w₂) (h₂ : Still w₂ w₃) : Still w₁ w₃ :=
  ⟨h₂.hw_offset.trans h₁.hw_offset, h₂.data.trans h₁.data, h₂.count.trans h₁.count, h₂.saved.trans h₁.saved⟩

theorem Still.agrees {w' : Cursor} (h : Still w w') (hw : w.Agrees c) : w'.Agrees c :=
  ⟨by rw [h.data, h.count]; exact hw.count, by rw [h.hw_offset, h.data]; exact hw.hw_offset⟩

theorem beyond_still (w : Cursor) : Still w w.beyond := by
  unfold Cursor.beyond
  split
  · exact .refl w
  · exact ⟨rfl, rfl, rfl, rfl⟩

theorem act_still (w : Cursor) (a : Action) : Still w (w.act c a) := by
  cases a with
  | print text => exact ⟨rfl, rfl, rfl, rfl⟩
  | instr index text =>
      show Still w (if index > w.count then w.beyond else w.print (w.line c index text))
      split
      · exact beyond_still w
      · exact ⟨rfl, rfl, rfl, rfl⟩

theorem acts_still (w : Cursor) (acts : List Action) : Still w (acts.foldl (Cursor.act c) w) := by
  induction acts generalizing w with
  | nil => exact .refl w
  | cons a acts ih => exact (act_still w a).trans (ih (w.act c a))

theorem perform_eq (hw : w.Agrees c) (a : Action) : perform c w a = .ok (w.act c a) := by
  cases a with
  | print text => rfl
  | instr index text =>
      show (if index > w.count then Except.ok w.beyond else if (w.window c).Readable index then
        Except.ok (w.print (w.line c index text)) else Except.error Fault.outOfBounds) =
          .ok (if index > w.count then w.beyond else w.print (w.line c index text))
      by_cases hbeyond : index > w.count
      · rw [if_pos hbeyond, if_pos hbeyond]
      · rw [if_neg hbeyond, if_neg hbeyond, if_pos ((hw.readable_iff index).mpr (by omega))]

theorem performs_eq (hw : w.Agrees c) (acts : List Action) :
    acts.foldlM (perform c) w = .ok (acts.foldl (Cursor.act c) w) := by
  induction acts generalizing w with
  | nil => rfl
  | cons a acts ih =>
      rw [List.foldlM_cons, perform_eq hw a, List.foldl_cons]
      exact ih ((act_still w a).agrees hw)

/-- A packet is decoded, and goes on by a dword at least. -/
theorem decodes (hw : w.Agrees c) (hpos : 0 < w.count) :
    ∃ index saved acts, Decodes c w index saved acts ∧ 1 ≤ index := by
  obtain ⟨⟨⟨index, saved⟩, acts⟩, hp, hindex⟩ := decode_packet_spec (hw.paged hpos) c.dump_past_end w.saved
  exact ⟨index, saved, acts, ⟨hpos, hp⟩, hindex⟩

/-- The packet printed. -/
def Cursor.after (c : Context) (w : Cursor) (saved : Saved) (acts : List Action) : Cursor :=
  acts.foldl (Cursor.act c) { w with saved := saved }

theorem after_hw_offset (saved : Saved) (acts : List Action) : (w.after c saved acts).hw_offset = w.hw_offset :=
  (acts_still _ acts).hw_offset

theorem after_data (saved : Saved) (acts : List Action) : (w.after c saved acts).data = w.data :=
  (acts_still _ acts).data

theorem after_count (saved : Saved) (acts : List Action) : (w.after c saved acts).count = w.count :=
  (acts_still _ acts).count

theorem after_saved (saved : Saved) (acts : List Action) : (w.after c saved acts).saved = saved :=
  (acts_still _ acts).saved

/-- A round, by what the decoder of its packet returns. -/
theorem round_eq (hw : w.Agrees c) {index : Nat} {saved : Saved} {acts : List Action}
    (hd : Decodes c w index saved acts) :
    round c w = .ok (if w.count < index then (false, w.after c saved acts) else (true, (w.after c saved acts).move index)) := by
  have hagrees : Cursor.Agrees c { w with saved := saved } := ⟨hw.count, hw.hw_offset⟩
  have hcount := after_count (c := c) (w := w) saved acts
  have hperform : acts.foldlM (perform c) { w with saved := saved } = .ok (w.after c saved acts) := performs_eq hagrees acts
  unfold round
  rw [hd.2]
  show advance c w index saved acts = _
  unfold advance
  rw [hperform]
  show (if (w.after c saved acts).count < index then _ else _) = _
  rw [hcount]
  split <;> rfl

theorem move_agrees {w' : Cursor} (hw : w'.Agrees c) {index : Nat} (hle : index ≤ w'.count) : (w'.move index).Agrees c := by
  constructor
  · show w'.data + index + (w'.count - index) = c.base_count
    have := hw.count
    omega
  · show w'.hw_offset + BitVec.ofNat 32 (4 * index) = c.base_hw_offset + BitVec.ofNat 32 (4 * (w'.data + index))
    rw [hw.hw_offset, Nat.mul_add, BitVec.ofNat_add, BitVec.add_assoc]

/-- What a round comes to: the loop goes on at a later dword, or is left. -/
theorem round_spec (hw : w.Agrees c) (hpos : 0 < w.count) :
    Returns (round c w) fun r => r.1 = true → r.2.Agrees c ∧ r.2.count < w.count := by
  obtain ⟨index, saved, acts, hd, hindex⟩ := decodes hw hpos
  refine ⟨_, round_eq hw hd, fun hmore => ?_⟩
  have hcount := after_count (c := c) (w := w) saved acts
  by_cases hlt : w.count < index
  · rw [if_pos hlt] at hmore
    cases hmore
  · rw [if_neg hlt]
    have hafter : (w.after c saved acts).Agrees c :=
      (acts_still _ acts).agrees ⟨hw.count, hw.hw_offset⟩
    refine ⟨move_agrees hafter (by omega), ?_⟩
    show (w.after c saved acts).count - index < w.count
    omega

/-- As many rounds as there are dwords are enough. -/
theorem decode_loop_returns {fuel : Nat} (hw : w.Agrees c) (hfuel : w.count ≤ fuel) :
    Returns (decode_loop c fuel w) fun _ => True := by
  induction fuel generalizing w with
  | zero =>
      unfold decode_loop
      rw [if_neg (by omega)]
      exact .ok trivial
  | succ fuel ih =>
      unfold decode_loop
      by_cases hpos : w.count > 0
      · rw [if_pos hpos]
        refine (round_spec hw hpos).bind fun ⟨more, w'⟩ hround => ?_
        cases more with
        | false => exact .pure trivial
        | true => exact ih (hround rfl).1 (by have := (hround rfl).2; dsimp only at this; omega)
      · rw [if_neg hpos]
        exact .pure trivial

end Rounds

/-! ## Whole decodes -/

section Decodes

variable {c : Context} {saved : Saved} {overflowed : Bool}

theorem start_agrees {w : Cursor} (h : start c saved overflowed = .ok w) : w.Agrees c := by
  unfold start at h
  split at h <;> cases h
  exact ⟨Nat.zero_add _, (BitVec.add_zero _).symm⟩

theorem head_agrees {w : Cursor} (h : Head c saved overflowed w) : w.Agrees c := by
  refine Runs.induct (I := Cursor.Agrees c) (fun s hs => start_agrees hs) (fun s s' hs hstep => ?_) h
  obtain ⟨r, hr, hround⟩ := round_spec hs hstep.1
  cases hr.symm.trans hstep.2
  exact (hround rfl).1

end Decodes

theorem drm_intel_decode_safe (c : Context) (saved : Saved) (overflowed : Bool)
    (hsize : c.base_count < 2 ^ 29 - 1024) :
    (∃ w, drm_intel_decode c saved overflowed = .ok w) ∧
      ∀ w, Head c saved overflowed w →
        w.data + w.count = c.base_count ∧ w.hw_offset = c.base_hw_offset + BitVec.ofNat 32 (4 * w.data) ∧
          (∀ i, (w.window c).Readable i ↔ i < w.count + 1024) ∧
          (0 < w.count →
            Prints (w.window c) decode_mi (fun ret _ => 1 ≤ ret ∨ ret = -1 ∧ mi_opcode ((w.window c).word 0) = 0x0a) ∧
            Prints (w.window c) decode_2d (fun ret _ => 1 ≤ ret) ∧
            Prints (w.window c) decode_3d_965 (fun ret _ => 1 ≤ ret) ∧
            (∀ s, Prints (w.window c) (decode_3d s) fun ret _ => 1 ≤ ret.1) ∧
            (∀ s, Prints (w.window c) (decode_3d_i830 s) fun ret _ => 1 ≤ ret.1) ∧
            ∃ r, round c w = .ok r) := by
  constructor
  · have hstart : start c saved overflowed =
        .ok ⟨c.base_hw_offset, 0, c.base_count, { saved with s2_set := false, s4_set := true }, overflowed, []⟩ :=
      if_pos (by omega)
    obtain ⟨w, hw, -⟩ := decode_loop_returns (start_agrees hstart) (Nat.le_refl _)
    refine ⟨w, ?_⟩
    unfold drm_intel_decode
    rw [hstart]
    exact hw
  · intro w hhead
    have hw := head_agrees hhead
    refine ⟨hw.count, hw.hw_offset, hw.readable_iff, fun hpos => ?_⟩
    have hpaged := hw.paged hpos
    obtain ⟨r, hr, -⟩ := round_spec hw hpos
    exact ⟨decode_mi_spec hpaged, decode_2d_spec hpaged, decode_3d_965_spec hpaged, fun s => decode_3d_table_spec hpaged _ _ s,
      fun s => decode_3d_table_spec hpaged _ _ s, r, hr⟩

/-- A packet of three dwords that begins at the last dword of its batch. -/
theorem drm_intel_decode_safe_cut : ∃ w, drm_intel_decode ⟨i915, [0x11000001], 0, 0, 0, false⟩ unset false = .ok w :=
  (drm_intel_decode_safe ⟨i915, [0x11000001], 0, 0, 0, false⟩ unset false (by decide)).1

end LibDrm.Decode
