/-
# `LibDrm.Decode.Histories` — what earlier decodes leave to a later one

From one call of `drm_intel_decode` to the next two things stay: the vertex state, which is static in
the file and so common to all contexts, and whether a context has overflowed.

    S2            marked as not set when a decode starts: nothing of it comes through
    S4            marked as set: a decode that sets S2 and not S4 draws by the S4 of an earlier one
    overflowed    the error is printed by the first decode of a context that overflows

A decode is independent of what was decoded before if and only if it does neither, that is, asks for no
dword further out than the one right behind the batch, and does not draw inline by S2 without an S4 of
its own (`decodes_independent`).  Both halves compare two decodes of one context side by side.
They stand at the same dword in every round (`Beside`).
-/
import LibDrm.Decode.Alike
import LibDrm.Decode.Printed

namespace LibDrm.Decode

/-! ## Histories -/

/-- What stays between two calls: the statics of the file, and a flag in each context. -/
structure Statics where
  saved : Saved
  overflowed : Nat → Bool

/-- `static uint32_t saved_s2 = 0, saved_s4 = 0; static char saved_s2_set = 0, saved_s4_set = 0;` -/
def zeroed : Saved := ⟨0, 0, false, false⟩

def Statics.start : Statics := ⟨zeroed, fun _ => false⟩

/-- A batch is decoded with one of the contexts. -/
def Call (devids : Nat → Chipset) (σ σ' : Statics) : Prop :=
  ∃ id c w, c.devid = devids id ∧ drm_intel_decode c σ.saved (σ.overflowed id) = .ok w ∧
    σ' = ⟨w.saved, Function.update σ.overflowed id w.overflowed⟩

def Reached (devids : Nat → Chipset) : Statics → Prop := Runs (· = .start) (Call devids)

/-- After any two histories the same is printed. -/
def Independent (id : Nat) (c : Context) : Prop :=
  ∀ devids devids' σ σ', devids id = c.devid → devids' id = c.devid → Reached devids σ → Reached devids' σ' →
    (drm_intel_decode c σ.saved (σ.overflowed id)).map Cursor.out =
      (drm_intel_decode c σ'.saved (σ'.overflowed id)).map Cursor.out

/-! ## The heads of the loop, and whether S4 was loaded -/

inductive HeadS4 (c : Context) : Cursor → Bool → Prop
  | start {w : Cursor} : start c zeroed false = .ok w → HeadS4 c w false
  | round {w w' : Cursor} {loaded : Bool} : HeadS4 c w loaded → Round c w w' →
      HeadS4 c w' (loaded || (w.window c).loadsS4)

/-- An inline primitive is drawn by an S2 of this decode, and by an S4 that is not. -/
def Stale (c : Context) : Prop :=
  ∃ w, HeadS4 c w false ∧ 0 < w.count ∧ (w.window c).drawsInline = true ∧ w.saved.s2_set = true

section Heads

variable {c : Context} {w : Cursor} {loaded : Bool}

theorem HeadS4.head (h : HeadS4 c w loaded) : Head c zeroed false w := by
  induction h with
  | start hstart => exact .init hstart
  | round _ hround ih => exact ih.step hround

end Heads

/-! ## Two decodes side by side -/

/-- Two cursors at one dword. -/
structure Places (w w' : Cursor) : Prop where
  hw_offset : w'.hw_offset = w.hw_offset
  data : w'.data = w.data
  count : w'.count = w.count

structure Beside (loaded : Bool) (w w' : Cursor) : Prop extends Places w w' where
  alike : Alike loaded w.saved w'.saved

/-- The packet at the head of both loops. -/
structure Packets (c : Context) (loaded : Bool) (w w' : Cursor) (index : Nat) (s s' : Saved) (acts acts' : List Action) :
    Prop where
  head : HeadS4 c w loaded
  beside : Beside loaded w w'
  decodes : Decodes c w index s acts
  decodes' : Decodes c w' index s' acts'
  twins : Twins (w.window c) loaded w.saved w'.saved (index, s) acts (index, s') acts'

/-- A relation of two cursors at the head that every packet keeps. -/
def Kept (c : Context) (I : Bool → Cursor → Cursor → Prop) : Prop :=
  ∀ loaded w w' index s s' acts acts', Packets c loaded w w' index s s' acts acts' → I loaded w w' →
    index ≤ w.count →
    I (loaded || (w.window c).loadsS4) ((w.after c s acts).move index) ((w'.after c s' acts').move index)

section SideBySide

variable {c : Context} {w w' v v' : Cursor} {loaded : Bool} {index : Nat} {s s' : Saved} {acts acts' : List Action}
  {I : Bool → Cursor → Cursor → Prop} {saved : Saved} {overflowed : Bool}

theorem Places.still (h : Places w w') (hv : Still w v) (hv' : Still w' v') : Places v v' where
  hw_offset := by rw [hv'.hw_offset, hv.hw_offset, h.hw_offset]
  data := by rw [hv'.data, hv.data, h.data]
  count := by rw [hv'.count, hv.count, h.count]

theorem Places.window (h : Places w w') : w'.window c = w.window c := by
  unfold Cursor.window
  rw [h.data, h.count]

theorem Places.agrees (h : Places w w') (hw : w.Agrees c) : w'.Agrees c :=
  ⟨by rw [h.data, h.count]; exact hw.count, by rw [h.hw_offset, h.data]; exact hw.hw_offset⟩

/-- At one head there is one packet. -/
theorem packets (hhead : HeadS4 c w loaded) (h : Beside loaded w w') (hpos : 0 < w.count) :
    ∃ index s s' acts acts', Packets c loaded w w' index s s' acts acts' := by
  have hw := head_agrees hhead.head
  obtain ⟨index, s, acts, hd, -⟩ := decodes hw hpos
  obtain ⟨index', s', acts', hd', -⟩ := decodes (h.agrees hw) (by rw [h.count]; exact hpos)
  have htwins := decode_packet_alike h.alike c.dump_past_end (index, s) acts (index', s') acts' hd.2
    (by rw [← h.window]; exact hd'.2)
  obtain rfl : index' = index := htwins.index
  exact ⟨index', s, s', acts, acts', hhead, h, hd, hd', htwins⟩

theorem Packets.after (h : Packets c loaded w w' index s s' acts acts') :
    Places (w.after c s acts) (w'.after c s' acts') where
  hw_offset := by rw [after_hw_offset, after_hw_offset, h.beside.hw_offset]
  data := by rw [after_data, after_data, h.beside.data]
  count := by rw [after_count, after_count, h.beside.count]

theorem Packets.move (h : Packets c loaded w w' index s s' acts acts') :
    Beside (loaded || (w.window c).loadsS4) ((w.after c s acts).move index) ((w'.after c s' acts').move index) := by
  refine ⟨⟨?_, ?_, ?_⟩, ?_⟩
  · show _ + BitVec.ofNat 32 (4 * index) = _ + BitVec.ofNat 32 (4 * index)
    rw [h.after.hw_offset]
  · show _ + index = _ + index
    rw [h.after.data]
  · show _ - index = _ - index
    rw [h.after.count]
  · show Alike _ (w.after c s acts).saved (w'.after c s' acts').saved
    rw [after_saved, after_saved]
    exact h.twins.alike

/-- The rounds of both: either both loops go on, or both are left. -/
theorem Packets.rounds (h : Packets c loaded w w' index s s' acts acts') :
    (index ≤ w.count → round c w = .ok (true, (w.after c s acts).move index) ∧
      round c w' = .ok (true, (w'.after c s' acts').move index)) ∧
    (w.count < index → round c w = .ok (false, w.after c s acts) ∧ round c w' = .ok (false, w'.after c s' acts')) := by
  have hw := head_agrees h.head.head
  rw [round_eq hw h.decodes, round_eq (h.beside.agrees hw) h.decodes', h.beside.count]
  refine ⟨fun hle => ?_, fun hlt => ?_⟩
  · rw [if_neg (Nat.not_lt_of_le hle), if_neg (Nat.not_lt_of_le hle)]
    exact ⟨rfl, rfl⟩
  · rw [if_pos hlt, if_pos hlt]
    exact ⟨rfl, rfl⟩

theorem start_beside (hw : start c zeroed false = .ok w) (hw' : start c saved overflowed = .ok w') : Beside false w w' := by
  unfold start at hw hw'
  split at hw
  · rw [if_pos ‹_›] at hw'
    cases hw
    cases hw'
    exact ⟨⟨rfl, rfl, rfl⟩, ⟨rfl, ⟨rfl, rfl⟩, fun hset => (by cases hset), fun hl => (by cases hl)⟩⟩
  · cases hw

/-- Where the one decode comes to, the other comes too. -/
theorem heads_beside (hkept : Kept c I)
    (hstart : ∀ w w', start c zeroed false = .ok w → start c saved overflowed = .ok w' → I false w w')
    (h : HeadS4 c w loaded) : ∃ w', Head c saved overflowed w' ∧ Beside loaded w w' ∧ I loaded w w' := by
  induction h with
  | @start w hw =>
      obtain ⟨w', hw'⟩ : ∃ w', start c saved overflowed = .ok w' := ⟨_, if_pos (fits_of_start hw)⟩
      exact ⟨w', .init hw', start_beside hw hw', hstart w w' hw hw'⟩
  | @round w v loaded hhead hround ih =>
      obtain ⟨w', hhead', hbeside, hI⟩ := ih
      obtain ⟨index, s, s', acts, acts', hp⟩ := packets hhead hbeside hround.1
      by_cases hlt : w.count < index
      · cases (hp.rounds.2 hlt).1.symm.trans hround.2
      · have hle := Nat.le_of_not_lt hlt
        obtain ⟨hr, hr'⟩ := hp.rounds.1 hle
        cases hr.symm.trans hround.2
        exact ⟨_, hhead'.step ⟨hp.decodes'.1, hr'⟩, hp.move, hkept _ _ _ _ _ _ _ _ hp hI hle⟩

theorem decode_loop_done (hzero : w.count = 0) (fuel : Nat) : decode_loop c fuel w = .ok w := by
  cases fuel with
  | zero => exact if_neg (by omega)
  | succ fuel => exact if_neg (by omega)

/-- From one head both decodes go on to their ends, and there is what the relation and the last packet come to. -/
theorem loops_beside {O : Cursor → Cursor → Prop} (hkept : Kept c I)
    (hend : ∀ loaded w w', I loaded w w' → w.count = 0 → O w w')
    (hcut : ∀ loaded w w' index s s' acts acts', Packets c loaded w w' index s s' acts acts' → I loaded w w' →
      O (w.after c s acts) (w'.after c s' acts')) {fuel fuel' : Nat} (hfuel : w.count ≤ fuel) (hfuel' : w.count ≤ fuel')
    (hhead : HeadS4 c w loaded) (hbeside : Beside loaded w w') (hI : I loaded w w') (h : decode_loop c fuel w = .ok v)
    (h' : decode_loop c fuel' w' = .ok v') : O v v' := by
  induction fuel generalizing fuel' w w' loaded with
  | zero =>
      have hzero : w.count = 0 := by omega
      rw [decode_loop_done hzero] at h
      rw [decode_loop_done (hbeside.count.trans hzero)] at h'
      cases h
      cases h'
      exact hend _ _ _ hI hzero
  | succ fuel ih =>
      rcases Nat.eq_zero_or_pos w.count with hzero | hpos
      · rw [decode_loop_done hzero] at h
        rw [decode_loop_done (hbeside.count.trans hzero)] at h'
        cases h
        cases h'
        exact hend _ _ _ hI hzero
      · obtain ⟨n, rfl⟩ : ∃ n, fuel' = n + 1 := ⟨fuel' - 1, by omega⟩
        obtain ⟨index, s, s', acts, acts', hp⟩ := packets hhead hbeside hpos
        have hpos' : w'.count > 0 := hp.decodes'.1
        unfold decode_loop at h h'
        rw [if_pos hpos] at h
        rw [if_pos hpos'] at h'
        by_cases hlt : w.count < index
        · obtain ⟨hr, hr'⟩ := hp.rounds.2 hlt
          rw [hr] at h
          rw [hr'] at h'
          cases h
          cases h'
          exact hcut _ _ _ _ _ _ _ _ hp hI
        · have hle := Nat.le_of_not_lt hlt
          obtain ⟨hr, hr'⟩ := hp.rounds.1 hle
          obtain ⟨r, hround, hless⟩ := round_spec (head_agrees hhead.head) hpos
          cases hround.symm.trans hr
          have hshorter : ((w.after c s acts).move index).count < w.count := (hless rfl).2
          rw [hr] at h
          rw [hr'] at h'
          exact ih (by omega) (by omega) (hhead.round ⟨hpos, hr⟩) hp.move (hkept _ _ _ _ _ _ _ _ hp hI hle) h h'

end SideBySide

/-! ## The same is printed -/

section Same

variable {c : Context} {w w' : Cursor} {loaded : Bool} {index : Nat} {s s' : Saved} {acts acts' : List Action}

theorem act_out_beside (h : Places w w') (hout : w'.out = w.out) {a : Action} (ha : ∀ i text, a = .instr i text → i ≤ w.count) :
    (w'.act c a).out = (w.act c a).out := by
  cases a with
  | print text => exact congrArg (· ++ _) hout
  | instr i text =>
      have hi : ¬ i > w.count := Nat.not_lt_of_le (ha i text rfl)
      show (if i > w'.count then w'.beyond else w'.print (w'.line c i text)).out =
        (if i > w.count then w.beyond else w.print (w.line c i text)).out
      rw [h.count, if_neg hi, if_neg hi]
      have hline : w'.line c i text = w.line c i text := by
        unfold Cursor.line
        rw [h.hw_offset, h.window]
      show w'.out ++ [_] = w.out ++ [_]
      rw [hline, hout]

/-- What asks for nothing behind the page does not depend on whether the context has overflowed. -/
theorem acts_out_beside (h : Places w w') (hout : w'.out = w.out) (hacts : ∀ i text, .instr i text ∈ acts → i ≤ w.count) :
    (acts.foldl (Cursor.act c) w').out = (acts.foldl (Cursor.act c) w).out := by
  induction acts generalizing w w' with
  | nil => exact hout
  | cons a acts ih =>
      have ha : ∀ i text, a = .instr i text → i ≤ w.count := by
        rintro i text rfl
        exact hacts i text List.mem_cons_self
      refine ih (h.still (act_still w a) (act_still w' a)) (act_out_beside h hout ha) fun i text hi => ?_
      rw [(act_still w a).count]
      exact hacts i text (List.mem_cons_of_mem a hi)

/-- A packet of a decode that is not stale, and does not overflow. -/
theorem Packets.after_out (h : Packets c loaded w w' index s s' acts acts') (hout : w'.out = w.out)
    (hover : ∀ k, c.base_count < k → ¬ Asked c zeroed false k) (hstale : ¬ Stale c) :
    (w'.after c s' acts').out = (w.after c s acts).out := by
  have hlines : acts' = acts := by
    refine h.twins.lines fun hdraws => hstale ?_
    obtain ⟨hinline, hset, rfl⟩ := hdraws
    exact ⟨w, h.head, h.decodes.1, hinline, hset⟩
  have hplaces : Places { w with saved := s } { w' with saved := s' } :=
    ⟨h.beside.hw_offset, h.beside.data, h.beside.count⟩
  rw [hlines]
  refine acts_out_beside hplaces hout fun i text hi => ?_
  by_contra hbeyond
  have hcount := (head_agrees h.head.head).count
  have hbeyond' : ¬ i ≤ w.count := hbeyond
  exact hover (w.data + i) (by omega) ⟨w, index, s, acts, i, text, h.head.head, h.decodes, hi, rfl⟩

theorem decode_out_eq (hover : ∀ k, c.base_count < k → ¬ Asked c zeroed false k) (hstale : ¬ Stale c) (saved : Saved)
    (overflowed : Bool) :
    (drm_intel_decode c saved overflowed).map Cursor.out = (drm_intel_decode c zeroed false).map Cursor.out := by
  by_cases hfits : 4 * c.base_count + 4096 < 2 ^ 31
  · obtain ⟨w₀, hstart⟩ : ∃ w, start c zeroed false = .ok w := ⟨_, if_pos hfits⟩
    obtain ⟨w₀', hstart'⟩ : ∃ w, start c saved overflowed = .ok w := ⟨_, if_pos hfits⟩
    obtain ⟨w, hw⟩ := decode_of_start hstart
    obtain ⟨w', hw'⟩ := decode_of_start hstart'
    have hbeside := start_beside hstart hstart'
    have hout : w₀'.out = w₀.out := by
      unfold start at hstart hstart'
      rw [if_pos hfits] at hstart hstart'
      cases hstart
      cases hstart'
      rfl
    have hloops : w'.out = w.out := by
      obtain ⟨v, hv, hloop⟩ := exists_of_bind_ok hw
      obtain ⟨v', hv', hloop'⟩ := exists_of_bind_ok hw'
      cases hv.symm.trans hstart
      cases hv'.symm.trans hstart'
      refine loops_beside (I := fun _ w w' => w'.out = w.out) (O := fun w w' => w'.out = w.out) ?_ ?_ ?_
        (Nat.le_refl _) (Nat.le_of_eq hbeside.count.symm) (.start hstart) hbeside hout hloop hloop'
      · exact fun _ _ _ _ _ _ _ _ hp hout _ => hp.after_out hout hover hstale
      · exact fun _ _ _ hout _ => hout
      · exact fun _ _ _ _ _ _ _ _ hp hout => hp.after_out hout hover hstale
    rw [hw, hw']
    exact congrArg Except.ok hloops
  · unfold drm_intel_decode start
    rw [if_neg hfits, if_neg hfits]

end Same

/-! ## Something else is printed -/

/-- The line of a position that S4 does not describe, as it is written. -/
def bads (w : Cursor) : Nat := w.out.count (.text ⟨"bad S4 position mask\n", []⟩)

section Other

variable {c : Context} {w w' : Cursor} {loaded : Bool} {index : Nat} {s s' : Saved} {acts acts' : List Action}

theorem bads_act (w : Cursor) (a : Action) : bads (w.act c a) = bads w + [a].count badPosition := by
  cases a with
  | print text =>
      show (w.out ++ [Line.text text]).count _ = _
      rw [List.count_append]
      congr 1
      by_cases htext : text = ⟨"bad S4 position mask\n", []⟩
      · rw [htext]
        rfl
      · rw [List.count_singleton, List.count_singleton, if_neg (by simpa using htext),
          if_neg (by simpa [badPosition] using htext)]
  | instr i text =>
      have hprint : ∀ line, (∀ t, line ≠ .text t) → bads (w.print line) = bads w := by
        intro line hline
        show (w.out ++ [line]).count _ = _
        rw [List.count_append, List.count_singleton, if_neg (by simpa using hline _)]
        rfl
      have hnone : [Action.instr i text].count badPosition = 0 := rfl
      rw [hnone, Nat.add_zero]
      show bads (if i > w.count then w.beyond else w.print (w.line c i text)) = bads w
      split
      · unfold Cursor.beyond
        split
        · rfl
        · exact hprint _ fun _ ht => (by cases ht)
      · exact hprint _ fun _ ht => (by cases ht)

theorem bads_acts (w : Cursor) (acts : List Action) :
    bads (acts.foldl (Cursor.act c) w) = bads w + acts.count badPosition := by
  induction acts generalizing w with
  | nil => rfl
  | cons a acts ih =>
      rw [List.foldl_cons, ih, bads_act, Nat.add_assoc, ← List.count_append]
      rfl

/-- Behind the decode that starts from zero, one that starts from an S4 of X and Y only: as long as none is loaded, each
    has its own, and the first has printed the line at least as often. -/
def Apart (loaded : Bool) (w w' : Cursor) : Prop :=
  bads w' ≤ bads w ∧ (loaded = false → w.count = 0 ∨ w.saved.s4 = 0 ∧ w'.saved.s4 = 0xc0)

/-- The packet at the head is drawn by the S4 that was left behind. -/
def DrawsStale (c : Context) (loaded : Bool) (w : Cursor) : Prop :=
  0 < w.count ∧ (w.window c).drawsInline = true ∧ w.saved.s2_set = true ∧ loaded = false

theorem Packets.bads_le (h : Packets c loaded w w' index s s' acts acts') (hI : Apart loaded w w') :
    acts'.count badPosition ≤ acts.count badPosition ∧
      (DrawsStale c loaded w → acts'.count badPosition < acts.count badPosition) := by
  by_cases hstale : DrawsStale c loaded w
  · obtain ⟨hpos, hdraws, hset, rfl⟩ := hstale
    have hs4 := (hI.2 rfl).resolve_left (by omega)
    obtain ⟨text, l, hvertices, rfl⟩ := drawsInline_acts hdraws h.decodes.2
    obtain ⟨text', l', hvertices', rfl⟩ := drawsInline_acts (W := w'.window c) (by rw [h.beside.window]; exact hdraws)
      h.decodes'.2
    have hset' : w'.saved.s2_set = true := h.beside.alike.s2_set.trans hset
    have hbad := inline_vertices_bad ⟨hset, h.beside.alike.s4_set.1⟩ hs4.1 (Nat.le_add_left 2 _) hvertices
    have hgood := inline_vertices_good ⟨hset', h.beside.alike.s4_set.2⟩ (by rw [hs4.2]; decide) hvertices'
    have hlt : (Action.instr 0 text' :: l').count badPosition < (Action.instr 0 text :: l).count badPosition := by
      have hnone : (Action.instr 0 text' :: l').count badPosition = 0 := by
        rw [List.count_eq_zero, List.mem_cons, not_or]
        exact ⟨fun heq => (by cases heq), hgood⟩
      rw [hnone]
      exact List.count_pos_iff.mpr (List.mem_cons_of_mem _ hbad)
    exact ⟨Nat.le_of_lt hlt, fun _ => hlt⟩
  · have hlines : acts' = acts := h.twins.lines fun hdraws => hstale ⟨h.decodes.1, hdraws⟩
    rw [hlines]
    exact ⟨Nat.le_refl _, fun h => absurd h hstale⟩

theorem bads_after (w : Cursor) (s : Saved) (acts : List Action) :
    bads (w.after c s acts) = bads w + acts.count badPosition := bads_acts { w with saved := s } acts

theorem apart_kept : Kept c Apart := by
  intro loaded w w' index s s' acts acts' hp hI hle
  have hcount := (hp.bads_le hI).1
  refine ⟨?_, fun hno => ?_⟩
  · show bads (w'.after c s' acts') ≤ bads (w.after c s acts)
    rw [bads_after, bads_after]
    exact Nat.add_le_add hI.1 hcount
  · rw [Bool.or_eq_false_iff] at hno
    have hs4 := (hI.2 hno.1).resolve_left (Nat.ne_of_gt hp.decodes.1)
    show (w.after c s acts).count - index = 0 ∨ (w.after c s acts).saved.s4 = 0 ∧ (w'.after c s' acts').saved.s4 = 0xc0
    rw [after_count, after_saved, after_saved]
    rcases hp.twins.kept hno.2 with hend | ⟨hs, hs'⟩
    · have hend' : index = w.count := hend
      exact .inl (by omega)
    · exact .inr ⟨hs.trans hs4.1, hs'.trans hs4.2⟩

/-- The line has been printed more often, or is about to be. -/
def Ahead (c : Context) (loaded : Bool) (w w' : Cursor) : Prop :=
  Apart loaded w w' ∧ (bads w' < bads w ∨ DrawsStale c loaded w)

theorem Packets.ahead (h : Packets c loaded w w' index s s' acts acts') (hI : Ahead c loaded w w') :
    bads (w'.after c s' acts') < bads (w.after c s acts) := by
  rw [bads_after, bads_after]
  rcases hI.2 with hlt | hstale
  · exact Nat.add_lt_add_of_lt_of_le hlt (h.bads_le hI.1).1
  · exact Nat.add_lt_add_of_le_of_lt hI.1.1 ((h.bads_le hI.1).2 hstale)

theorem ahead_kept : Kept c (Ahead c) := fun _ _ _ _ _ _ _ _ hp hI hle =>
  ⟨apart_kept _ _ _ _ _ _ _ _ hp hI.1 hle, .inl (hp.ahead hI)⟩

theorem bads_of_stale {saved : Saved} (hs4 : saved.s4 = 0xc0) (h : Stale c) {v v' : Cursor}
    (hv : drm_intel_decode c zeroed false = .ok v) (hv' : drm_intel_decode c saved false = .ok v') : bads v' < bads v := by
  obtain ⟨w, hhead, hpos, hdraws, hset⟩ := h
  have hstart : ∀ w w', start c zeroed false = .ok w → start c saved false = .ok w' → Apart false w w' := by
    intro w w' hw hw'
    unfold start at hw hw'
    split at hw
    · rw [if_pos ‹_›] at hw'
      cases hw
      cases hw'
      exact ⟨Nat.le_refl _, fun _ => .inr ⟨rfl, hs4⟩⟩
    · cases hw
  obtain ⟨w', hhead', hbeside, hI⟩ := heads_beside apart_kept hstart hhead
  obtain ⟨fuel, hfuel, heq⟩ := resume hhead.head
  obtain ⟨fuel', hfuel', heq'⟩ := resume hhead'
  refine loops_beside (O := fun v v' => bads v' < bads v) ahead_kept ?_ (fun _ _ _ _ _ _ _ _ hp hI => hp.ahead hI) hfuel
    (hbeside.count ▸ hfuel') hhead hbeside ⟨hI, .inr ⟨hpos, hdraws, hset, rfl⟩⟩ (heq ▸ hv) (heq' ▸ hv')
  intro loaded w w' hI hzero
  exact hI.2.resolve_right fun hstale => absurd hstale.1 (by omega)

/-! ## The histories that make the difference -/

theorem started_of_asked {k : Nat} : Asked c zeroed false k → ∃ w, start c zeroed false = .ok w := by
  rintro ⟨_, _, _, _, _, _, hhead, -⟩
  exact started_of_head hhead

theorem started_of_stale : Stale c → ∃ w, start c zeroed false = .ok w := by
  rintro ⟨_, hhead, -⟩
  exact started_of_head hhead.head

/-- `MI_LOAD_REGISTER_IMM` in the only dword of its batch. -/
def loadsRegister (devid : Chipset) : Context := ⟨devid, [0x11000001], 0, 0, 0, false⟩

theorem overflows (devid : Chipset) :
    ∃ w, drm_intel_decode (loadsRegister devid) zeroed false = .ok w ∧ w.overflowed = true := by
  have hstart : start (loadsRegister devid) zeroed false = .ok ⟨0, 0, 1, ⟨0, 0, false, true⟩, false, []⟩ :=
    if_pos (show 4 * 1 + 4096 < 2 ^ 31 by decide)
  obtain ⟨w, hw⟩ := decode_of_start hstart
  refine ⟨w, hw, (answered_of_decode hw ?_ : Answered _ 2 w).2 (show 1 < 2 by decide)⟩
  refine ⟨⟨0, 0, 1, ⟨0, 0, false, true⟩, false, []⟩, 3, ⟨0, 0, false, true⟩,
    [.instr 0 ⟨"%s\n", [.str "MI_LOAD_REGISTER_IMM"]⟩, .instr 1 ⟨"dword %d\n", [.word 1]⟩,
     .instr 2 ⟨"dword %d\n", [.word 2]⟩], 2, ⟨"dword %d\n", [.word 2]⟩, .init hstart, ⟨by decide, ?_⟩,
    List.mem_cons_of_mem _ (List.mem_cons_of_mem _ List.mem_cons_self), rfl⟩
  obtain ⟨_ | _, _ | _, _ | _, _ | _, _ | _, _ | _, _ | _⟩ := devid <;> decide +kernel

/-- 3DSTATE_LOAD_STATE_IMMEDIATE_1 with an S4 of X and Y. -/
def loadsXY : Context := ⟨i915, [0x7d040100, 0xc0], 0, 0, 0, false⟩

theorem decode_loadsXY : ∃ w, drm_intel_decode loadsXY zeroed false = .ok w ∧ w.saved.s4 = 0xc0 := by
  have hrun : (drm_intel_decode loadsXY zeroed false).toOption.map (fun w => w.saved.s4) = some 0xc0 := by decide +kernel
  obtain ⟨w, hw, hs4⟩ := Option.map_eq_some_iff.mp hrun
  exact ⟨w, toOption_eq_some hw, hs4⟩

end Other

theorem decodes_independent (id : Nat) (c : Context) :
    Independent id c ↔ (∀ k, c.base_count < k → ¬ Asked c zeroed false k) ∧ ¬ Stale c := by
  constructor
  · intro h
    refine ⟨fun k hk hasked => ?_, fun hstale => ?_⟩
    · -- this context has overflowed before
      obtain ⟨w₀, hdecode, hov⟩ := overflows c.devid
      have hreached : Reached (fun _ => c.devid) ⟨w₀.saved, Function.update (fun _ => false) id w₀.overflowed⟩ :=
        Runs.step (.init rfl) ⟨id, loadsRegister c.devid, w₀, rfl, hdecode, rfl⟩
      have hsame := h (fun _ => c.devid) (fun _ => c.devid) _ _ rfl rfl (.init rfl) hreached
      dsimp only at hsame
      rw [Function.update_self, hov] at hsame
      obtain ⟨_, hstart⟩ := started_of_asked hasked
      obtain ⟨v, hv⟩ := decode_of_start hstart
      obtain ⟨v', hv'⟩ : ∃ v', drm_intel_decode c w₀.saved true = .ok v' :=
        decode_of_start (if_pos (fits_of_start hstart))
      have htold := (told_of_decode hv).now rfl ((answered_of_decode hv hasked).2 hk)
      have hsilent := ((told_of_decode hv').before rfl).2
      have hout : v.out = v'.out := by
        have hmap : (drm_intel_decode c zeroed false).map Cursor.out = (drm_intel_decode c w₀.saved true).map Cursor.out := hsame
        rw [hv, hv'] at hmap
        exact Except.ok.inj hmap
      rw [← hout] at hsilent
      exact hsilent htold
    · -- another context has loaded an S4
      obtain ⟨w₀, hdecode, hs4⟩ := decode_loadsXY
      have hne : id ≠ id + 1 := Nat.ne_of_lt (Nat.lt_succ_self id)
      have hreached : Reached (Function.update (fun _ => i915) id c.devid)
          ⟨w₀.saved, Function.update (fun _ => false) (id + 1) w₀.overflowed⟩ := by
        refine Runs.step (.init rfl) ⟨id + 1, loadsXY, w₀, ?_, hdecode, rfl⟩
        rw [Function.update_of_ne hne.symm]
        rfl
      have hsame := h (fun _ => c.devid) _ _ _ rfl (Function.update_self ..) (.init rfl) hreached
      dsimp only at hsame
      rw [Function.update_of_ne hne] at hsame
      obtain ⟨_, hstart⟩ := started_of_stale hstale
      obtain ⟨v, hv⟩ := decode_of_start hstart
      obtain ⟨v', hv'⟩ : ∃ v', drm_intel_decode c w₀.saved false = .ok v' :=
        decode_of_start (if_pos (fits_of_start hstart))
      have hlt := bads_of_stale hs4 hstale hv hv'
      have hmap : (drm_intel_decode c zeroed false).map Cursor.out = (drm_intel_decode c w₀.saved false).map Cursor.out := hsame
      rw [hv, hv'] at hmap
      have hout : v.out = v'.out := Except.ok.inj hmap
      unfold bads at hlt
      rw [hout] at hlt
      exact Nat.lt_irrefl _ hlt
  · rintro ⟨hover, hstale⟩ devids devids' σ σ' - - - -
    exact (decode_out_eq hover hstale _ _).trans (decode_out_eq hover hstale _ _).symm

end LibDrm.Decode
