/-
# `LibDrm.Decode.Alike` — what a packet makes of the vertex state that it finds

`saved_s2` and `saved_s4` outlive a decode.  At its start S2 is marked as not set, but S4 as set, so
that a decode may draw by an S4 of an earlier one.

    loadsS4        3DSTATE_LOAD_STATE_IMMEDIATE_1 with the word S4
    drawsInline    a complete 3DPRIMITIVE with its vertices, but no clear rectangle

Two decodes of one packet, with states that are `Alike` in what was loaded, go on by the same index
with states that are alike again, and print the same (`decode_packet_alike`), unless the packet draws
by an S4 that was not loaded.  Then it matters what that S4 is (`inline_vertices_bad`,
`inline_vertices_good`).
-/
import LibDrm.Decode.Safety

namespace LibDrm.Decode

/-! ## The packets that have to do with S4 -/

namespace Window

variable (W : Window)

/-- The packet goes to `decode_3d` or to `decode_3d_i830`. -/
def threeD : Bool := field (W.word 0) 29 0x7 == 0x3 && !(W.devid.IS_9XX && !W.devid.IS_GEN3)

def loadsS4 : Bool :=
  W.threeD && field (W.word 0) 24 0x1f == 0x1d && field (W.word 0) 16 0xff == 0x04 && bit (W.word 0) 8
    && !W.devid.IS_GEN2

def drawsInline : Bool :=
  W.threeD && field (W.word 0) 24 0x1f == 0x1f && W.inline && decide (W.inlineLength ≤ W.count) && !W.clearRect

end Window

/-- The states agree in S2, if it is set, and in S4, if it was loaded. -/
structure Alike (loaded : Bool) (S S' : Saved) : Prop where
  s2_set : S'.s2_set = S.s2_set
  s4_set : S.s4_set = true ∧ S'.s4_set = true
  s2 : S.s2_set = true → S'.s2 = S.s2
  s4 : loaded = true → S'.s4 = S.s4

/-- What becomes of the two states in one packet. -/
structure Twins (W : Window) (loaded : Bool) (S S' : Saved) (x : Nat × Saved) (l : List Action) (x' : Nat × Saved)
    (l' : List Action) : Prop where
  index : x'.1 = x.1
  alike : Alike (loaded || W.loadsS4) x.2 x'.2
  lines : ¬ (W.drawsInline = true ∧ S.s2_set = true ∧ loaded = false) → l' = l
  /-- S4 stays, unless the packet is cut off by the end of the batch. -/
  kept : W.loadsS4 = false → x.1 = W.count ∨ x.2.s4 = S.s4 ∧ x'.2.s4 = S'.s4

section States

variable {loaded : Bool} {S S' : Saved}

theorem Alike.eq (h : Alike loaded S S') (hset : S.s2_set = true) (hloaded : loaded = true) : S' = S := by
  obtain ⟨s2, s4, s2_set, s4_set⟩ := S
  obtain ⟨s2', s4', s2_set', s4_set'⟩ := S'
  obtain ⟨h2, ⟨h4, h4'⟩, hs2, hs4⟩ := h
  cases h2
  cases h4
  cases h4'
  cases hs2 hset
  cases hs4 hloaded
  rfl

theorem Alike.override (h : Alike loaded S S') (type : Nat) : Alike loaded (S.override type) (S'.override type) := by
  unfold Saved.override
  split
  · exact ⟨h.s2_set, h.s4_set, fun _ => rfl, fun _ => rfl⟩
  · exact h

/-- A clear rectangle has both words. -/
theorem Alike.override_eq (h : Alike loaded S S') (hset : S.s2_set = true) {type : Nat}
    (hboth : type = 0xa ∨ loaded = true) : S'.override type = S.override type := by
  rcases hboth with rfl | hloaded
  · have hall : Alike true (S.override 0xa) (S'.override 0xa) :=
      ⟨h.s2_set, h.s4_set, fun _ => rfl, fun _ => rfl⟩
    exact hall.eq hset rfl
  · rw [h.eq hset hloaded]

theorem override_restore (S : Saved) (type : Nat) : (S.override type).restore S = S := by
  unfold Saved.override
  split
  · rfl
  · rfl

theorem override_s2_set (S : Saved) (type : Nat) : (S.override type).s2_set = S.s2_set := by
  unfold Saved.override
  split
  · rfl
  · rfl

theorem Alike.or_false (h : Alike loaded S S') {more : Bool} (hno : more = false) : Alike (loaded || more) S S' := by
  rw [hno, Bool.or_false]
  exact h

end States

/-! ## The packets -/

section Packets

variable {W : Window} {loaded : Bool} {S S' : Saved}

theorem word_of_data {i : Nat} {d : BitVec 32} {l : List Action} (h : data i W = .ok (d, l)) : d = W.word i ∧ l = [] := by
  unfold data at h
  split at h
  · cases h
    exact ⟨rfl, rfl⟩
  · cases h

theorem window_of_ctx {W' : Window} {l : List Action} (h : ctx W = .ok (W', l)) : W' = W ∧ l = [] := by
  cases h
  exact ⟨rfl, rfl⟩

theorem count_of_fail {count len ret : Nat} {name : String} {l : List Action}
    (h : BUFFER_FAIL count len name W = .ok (ret, l)) : ret = count := by
  cases h
  rfl

theorem inline_vertices_same (h : Alike loaded S S') (type len : Nat)
    (hboth : S.s2_set = true → type = 0xa ∨ loaded = true) :
    inline_vertices (S'.override type) len = inline_vertices (S.override type) len := by
  cases hset : S.s2_set with
  | true => rw [h.override_eq hset (hboth hset)]
  | false =>
      unfold inline_vertices
      rw [override_s2_set, override_s2_set, h.s2_set, hset, Bool.not_false, Bool.true_or, Bool.true_or, if_pos rfl,
        if_pos rfl]

/-- What the exits of a primitive come to. -/
structure Drawn (W : Window) (loaded : Bool) (S S' : Saved) (same : Prop) (x : Nat × Saved) (l : List Action)
    (x' : Nat × Saved) (l' : List Action) : Prop where
  index : x'.1 = x.1
  alike : Alike loaded x.2 x'.2
  lines : same → l' = l
  kept : x.1 = W.count ∨ x.2.s4 = S.s4 ∧ x'.2.s4 = S'.s4

theorem primitive_inline_alike (h : Alike loaded S S') (type : Nat) (d : BitVec 32) :
    Abreast W (primitive_inline W type d S (S.override type)) (primitive_inline W type d S' (S'.override type))
      (Drawn W loaded S S' (field d 0 0x3ffff + 2 ≤ W.count → S.s2_set = true → type = 0xa ∨ loaded = true)) := by
  refine Abreast.same fun _ _ _ => Abreast.ite (fun hlt => ?_) fun hlt => ?_
  · refine Abreast.same fun ret _ hret => .pure ⟨rfl, h.override type, fun _ => rfl, .inl (count_of_fail hret)⟩
  · rw [override_restore, override_restore]
    by_cases hboth : S.s2_set = true → type = 0xa ∨ loaded = true
    · rw [inline_vertices_same h type _ hboth]
      exact Abreast.same fun _ _ _ => .pure ⟨rfl, h, fun _ => rfl, .inr ⟨rfl, rfl⟩⟩
    · refine Abreast.bind (P := fun _ _ _ _ => True) (fun _ _ _ _ _ _ => trivial) fun _ _ _ _ _ => .pure ?_
      exact ⟨rfl, h, fun hsame => absurd (hsame (Nat.le_of_not_lt hlt)) hboth, .inr ⟨rfl, rfl⟩⟩

theorem primitive_random_alike (h : Alike loaded S S') (type : Nat) (d : BitVec 32) :
    Abreast W (primitive_random W type d S (S.override type)) (primitive_random W type d S' (S'.override type))
      (Drawn W loaded S S' True) := by
  refine Abreast.ite (fun _ => ?_) fun _ => ?_
  · exact Abreast.same fun ret _ hret => .pure ⟨rfl, h.override type, fun _ => rfl, .inl (count_of_fail hret)⟩
  · rw [override_restore, override_restore]
    refine Abreast.same fun _ _ _ => Abreast.ite (fun _ => ?_) fun _ => ?_
    · exact Abreast.same fun _ _ _ => .pure ⟨rfl, h, fun _ => rfl, .inr ⟨rfl, rfl⟩⟩
    · exact Abreast.same fun _ _ _ => .pure ⟨rfl, h, fun _ => rfl, .inr ⟨rfl, rfl⟩⟩

theorem primitive_sequential_alike (h : Alike loaded S S') (type : Nat) (d : BitVec 32) :
    Abreast W (primitive_sequential type d S (S.override type)) (primitive_sequential type d S' (S'.override type))
      (Drawn W loaded S S' True) := by
  unfold primitive_sequential
  rw [override_restore, override_restore]
  refine Abreast.same fun _ _ _ => Abreast.same fun _ _ _ => Abreast.same fun _ _ _ => .pure ?_
  exact ⟨rfl, h, fun _ => rfl, .inr ⟨rfl, rfl⟩⟩

theorem decode_3d_primitive_alike (h : Alike loaded S S') :
    Abreast W (decode_3d_primitive S) (decode_3d_primitive S') (Drawn W loaded S S'
      ¬ ((W.inline && decide (W.inlineLength ≤ W.count) && !W.clearRect) = true ∧ S.s2_set = true ∧ loaded = false)) := by
  refine Abreast.same fun W' _ hW => Abreast.same fun d _ hd => ?_
  obtain ⟨rfl, -⟩ := window_of_ctx hW
  obtain ⟨rfl, -⟩ := word_of_data hd
  refine Abreast.ite (fun hinline => ?_) fun _ => Abreast.ite (fun _ => ?_) fun _ => ?_
  · refine (primitive_inline_alike h _ _).mono fun x l x' l' hdrawn => ⟨hdrawn.index, hdrawn.alike, fun hsame => ?_, hdrawn.kept⟩
    refine congrArg _ (congrArg _ (hdrawn.lines fun hlen hset => ?_))
    by_contra hneither
    rw [not_or, Bool.not_eq_true] at hneither
    refine hsame ⟨?_, hset, hneither.2⟩
    rw [Bool.and_eq_true, Bool.and_eq_true, Bool.not_eq_true', decide_eq_true_iff]
    exact ⟨⟨hinline, hlen⟩, beq_eq_false_iff_ne.mpr hneither.1⟩
  · exact (primitive_random_alike h _ _).mono fun x l x' l' hdrawn =>
      ⟨hdrawn.index, hdrawn.alike, fun _ => congrArg _ (congrArg _ (hdrawn.lines trivial)), hdrawn.kept⟩
  · exact (primitive_sequential_alike h _ _).mono fun x l x' l' hdrawn =>
      ⟨hdrawn.index, hdrawn.alike, fun _ => congrArg _ (congrArg _ (hdrawn.lines trivial)), hdrawn.kept⟩

end Packets

/-! ## Loading the vertex state -/

/-- From two states to two others, which have one S4 if it was loaded on the way, and their own if not. -/
structure Saves (loads loaded : Bool) (S S' T T' : Saved) : Prop where
  alike : Alike (loaded || loads) T T'
  kept : loads = false → T.s4 = S.s4 ∧ T'.s4 = S'.s4

section Loads

variable {W : Window} {loaded loads more : Bool} {S S' T T' U U' : Saved}

theorem Saves.refl (h : Alike loaded S S') : Saves false loaded S S' S S' := ⟨h.or_false rfl, fun _ => ⟨rfl, rfl⟩⟩

theorem Saves.trans (h₁ : Saves loads loaded S S' T T') (h₂ : Saves more (loaded || loads) T T' U U') :
    Saves (loads || more) loaded S S' U U' := by
  refine ⟨?_, fun hno => ?_⟩
  · rw [← Bool.or_assoc]
    exact h₂.alike
  · rw [Bool.or_eq_false_iff] at hno
    obtain ⟨hT, hT'⟩ := h₁.kept hno.1
    obtain ⟨hU, hU'⟩ := h₂.kept hno.2
    exact ⟨hU.trans hT, hU'.trans hT'⟩

theorem Alike.save (h : Alike loaded S S') (word : Nat) (d : BitVec 32) :
    Saves (word == 4) loaded S S' (S.save word d) (S'.save word d) := by
  unfold Saved.save
  split
  · exact ⟨⟨rfl, h.s4_set, fun _ => rfl, fun hl => h.s4 ((Bool.or_false loaded).symm.trans hl)⟩, fun _ => ⟨rfl, rfl⟩⟩
  · exact ⟨⟨h.s2_set, ⟨rfl, rfl⟩, h.s2, fun _ => rfl⟩, fun hno => (by cases hno)⟩
  · next h4 =>
    rw [beq_eq_false_iff_ne.mpr h4]
    exact .refl h

theorem load_state_word_alike (h : Alike loaded S S') (devid : Chipset) (i word : Nat) :
    Abreast W (load_state_word devid S i word) (load_state_word devid S' i word) fun T l T' l' =>
      Saves (word == 4 && !devid.IS_GEN2) loaded S S' T T' ∧ l' = l := by
  refine Abreast.same fun d _ _ => Abreast.ite (fun hgen2 => ?_) fun hgen2 => ?_
  · rw [hgen2, Bool.not_true, Bool.and_false]
    exact Abreast.same fun _ _ _ => .pure ⟨.refl h, rfl⟩
  · rw [Bool.not_eq_true] at hgen2
    rw [hgen2, Bool.not_false, Bool.and_true]
    exact Abreast.same fun _ _ _ => .pure ⟨h.save word d, rfl⟩

theorem load_state_immediate_1_alike (h : Alike loaded S S') (d : BitVec 32) :
    Abreast W (load_state_immediate_1 S d) (load_state_immediate_1 S' d) fun x l x' l' =>
      x'.1 = x.1 ∧ Saves (bit d 8 && !W.devid.IS_GEN2) loaded S S' x.2 x'.2 ∧ l' = l := by
  refine Abreast.same fun W' _ hW => Abreast.same fun _ _ _ => ?_
  obtain ⟨rfl, -⟩ := window_of_ctx hW
  -- S4 is loaded once the fourth word has had its turn
  refine Abreast.bind (Abreast.foldlM (I := fun (done : List Nat) (s t : Nat × Saved) => t.1 = s.1 ∧
    Saves (done.any (· == 4) && (bit d 8 && !W'.devid.IS_GEN2)) loaded S S' s.2 t.2) ⟨rfl, .refl h⟩ ?_) ?_
  · rintro done word rest ⟨i, T⟩ ⟨i', T'⟩ - ⟨rfl, hsaves⟩
    rw [List.any_append, List.any_cons, List.any_nil, Bool.or_false, Bool.and_or_distrib_right]
    refine Abreast.ite (fun hbit => ?_) fun hbit => ?_
    · refine (load_state_word_alike hsaves.alike W'.devid i' word).bind ?_
      rintro U l U' _ ⟨hU, rfl⟩
      refine .pure ⟨⟨rfl, hsaves.trans ?_⟩, rfl⟩
      by_cases h4 : word = 4
      · subst h4
        rw [show bit d 8 = true from hbit, Bool.true_and] at *
        exact hU
      · rw [beq_eq_false_iff_ne.mpr h4] at hU ⊢
        exact hU
    · have hno : (word == 4 && (bit d 8 && !W'.devid.IS_GEN2)) = false := by
        by_cases h4 : word = 4
        · subst h4
          rw [Bool.not_eq_true] at hbit
          rw [show bit d 8 = false from hbit, Bool.false_and, Bool.and_false]
        · rw [beq_eq_false_iff_ne.mpr h4, Bool.false_and]
      rw [hno]
      exact .pure ⟨⟨rfl, hsaves.trans (.refl hsaves.alike)⟩, rfl⟩
  · rintro ⟨i, T⟩ l ⟨i', T'⟩ _ ⟨⟨rfl, hsaves⟩, rfl⟩
    exact Abreast.same fun _ _ _ => .pure ⟨rfl, hsaves, rfl⟩

end Loads

/-! ## Any packet -/

section Any

variable {W : Window} {loaded : Bool} {S S' : Saved}

/-- Both begin with the same. -/
theorem twins_bind {α : Type} {p : Decoder α} {f f' : α → Decoder (Nat × Saved)}
    (hff : ∀ a l, p W = .ok (a, l) → Abreast W (f a) (f' a) (Twins W loaded S S')) :
    Abreast W (p >>= f) (p >>= f') (Twins W loaded S S') := by
  refine Abreast.same fun a k hp => (hff a k hp).mono fun x l x' l' htwins => ?_
  exact ⟨htwins.index, htwins.alike, fun hn => by rw [htwins.lines hn], htwins.kept⟩

/-- The packet has nothing to do with the vertex state. -/
theorem twins_same {α : Type} {p : Decoder α} {f : α → Nat} (h : Alike loaded S S') (hno : W.loadsS4 = false) :
    Abreast W (p >>= fun a => pure (f a, S)) (p >>= fun a => pure (f a, S')) (Twins W loaded S S') :=
  twins_bind fun _ _ _ => .pure ⟨rfl, h.or_false hno, fun _ => rfl, fun _ => .inr ⟨rfl, rfl⟩⟩

theorem loadsS4_of_opcode (hop : field (W.word 0) 24 0x1f ≠ 0x1d) : W.loadsS4 = false := by
  unfold Window.loadsS4
  rw [beq_eq_false_iff_ne.mpr hop, Bool.and_false, Bool.false_and, Bool.false_and, Bool.false_and]

theorem loadsS4_of_threeD (h3 : W.threeD = false) : W.loadsS4 = false := by
  unfold Window.loadsS4
  rw [h3, Bool.false_and, Bool.false_and, Bool.false_and, Bool.false_and]

theorem decode_3d_1d_alike (h : Alike loaded S S') (h3 : W.threeD = true) (hop : field (W.word 0) 24 0x1f = 0x1d) :
    Abreast W (decode_3d_1d S) (decode_3d_1d S') (Twins W loaded S S') := by
  refine twins_bind fun d _ hd => twins_bind fun W' _ hW => ?_
  obtain ⟨rfl, -⟩ := window_of_ctx hW
  obtain ⟨rfl, -⟩ := word_of_data hd
  have hloads : W'.loadsS4 = ((field (W'.word 0) 16 0xff == 0x04) && (bit (W'.word 0) 8 && !W'.devid.IS_GEN2)) := by
    unfold Window.loadsS4
    rw [h3, hop, beq_self_eq_true, Bool.true_and, Bool.true_and, Bool.and_assoc]
  refine Abreast.ite (fun h4 => ?_) fun h4 => ?_
  · rw [h4, beq_self_eq_true, Bool.true_and] at hloads
    refine (load_state_immediate_1_alike h _).mono ?_
    rintro x l x' _ ⟨hindex, hsaves, rfl⟩
    rw [← hloads] at hsaves
    exact ⟨hindex, hsaves.alike, fun _ => rfl, fun hno => .inr (hsaves.kept hno)⟩
  · rw [beq_eq_false_iff_ne.mpr h4, Bool.false_and] at hloads
    exact twins_same h hloads

theorem decode_3d_primitive_twins (h : Alike loaded S S') (h3 : W.threeD = true)
    (hop : field (W.word 0) 24 0x1f = 0x1f) :
    Abreast W (decode_3d_primitive S) (decode_3d_primitive S') (Twins W loaded S S') := by
  have hloads : W.loadsS4 = false := loadsS4_of_opcode (by rw [hop]; decide)
  have hdraws : W.drawsInline = (W.inline && decide (W.inlineLength ≤ W.count) && !W.clearRect) := by
    unfold Window.drawsInline
    rw [h3, hop, beq_self_eq_true, Bool.true_and, Bool.true_and]
  refine (decode_3d_primitive_alike h).mono fun x l x' l' hdrawn => ?_
  rw [← hdraws] at hdrawn
  exact ⟨hdrawn.index, hdrawn.alike.or_false hloads, hdrawn.lines, fun _ => hdrawn.kept⟩

theorem decode_3d_table_alike (h : Alike loaded S S') (h3 : W.threeD = true) (rows : List Opcode) (unknown : String) :
    Abreast W (decode_3d_table rows unknown S) (decode_3d_table rows unknown S') (Twins W loaded S S') := by
  refine twins_bind fun d _ hd => ?_
  obtain ⟨rfl, -⟩ := word_of_data hd
  dsimp only
  split
  · next hop => exact decode_3d_primitive_twins h h3 hop
  · next hop => exact decode_3d_1d_alike h h3 hop
  · next hop => exact twins_same h (loadsS4_of_opcode (by rw [hop]; decide))
  · next hprim h1d h1c =>
    have hno := loadsS4_of_opcode h1d
    split
    · exact twins_same h hno
    · exact twins_same h hno

theorem decode_packet_alike (h : Alike loaded S S') (dump_past_end : Bool) :
    Abreast W (decode_packet dump_past_end S) (decode_packet dump_past_end S') (Twins W loaded S S') := by
  refine twins_bind fun W' _ hW => twins_bind fun d _ hd => ?_
  obtain ⟨rfl, -⟩ := window_of_ctx hW
  obtain ⟨rfl, -⟩ := word_of_data hd
  have hno (hkind : field (W'.word 0) 29 0x7 ≠ 0x3) : W'.loadsS4 = false := loadsS4_of_threeD (by
    unfold Window.threeD
    rw [beq_eq_false_iff_ne.mpr hkind, Bool.false_and])
  split
  · next hkind =>
    exact twins_bind fun _ _ _ => twins_same h (hno (by rw [hkind]; decide))
  · next hkind => exact twins_same h (hno (by rw [hkind]; decide))
  · next hkind =>
    have h3 : W'.threeD = !(W'.devid.IS_9XX && !W'.devid.IS_GEN3) := by
      unfold Window.threeD
      rw [hkind, beq_self_eq_true, Bool.true_and]
    refine Abreast.ite (fun hgen4 => ?_) fun hgen4 => ?_
    · rw [hgen4] at h3
      exact twins_same h (loadsS4_of_threeD h3)
    · rw [Bool.not_eq_true] at hgen4
      rw [hgen4] at h3
      exact Abreast.ite (fun _ => decode_3d_table_alike h h3 _ _) fun _ => decode_3d_table_alike h h3 _ _
  · next hmi h2d hkind => exact twins_same h (hno hkind)

end Any

/-! ## A packet that draws by S4 -/

/-- The line of a position that S4 does not describe. -/
def badPosition : Action := .print ⟨"bad S4 position mask\n", []⟩

theorem badPosition_ne {fmt : String} {args : List Arg} (h : fmt ≠ "bad S4 position mask\n") :
    badPosition ≠ .print ⟨fmt, args⟩ := fun heq => h (congrArg Text.fmt (Action.print.inj heq)).symm

section Drawing

variable {W : Window} {S : Saved} {x : Nat × Saved} {acts : List Action}

theorem decode_3d_table_primitive {rows : List Opcode} {unknown : String} (hop : field (W.word 0) 24 0x1f = 0x1f)
    (h : decode_3d_table rows unknown S W = .ok (x, acts)) : decode_3d_primitive S W = .ok (x, acts) := by
  obtain ⟨d, k, l, hd, hrest, rfl⟩ := Printer.exists_of_bind_ok h
  obtain ⟨rfl, rfl⟩ := word_of_data hd
  dsimp only at hrest
  rw [hop] at hrest
  exact hrest

theorem decode_packet_primitive {dump_past_end : Bool} (h3 : W.threeD = true) (hop : field (W.word 0) 24 0x1f = 0x1f)
    (h : decode_packet dump_past_end S W = .ok (x, acts)) : decode_3d_primitive S W = .ok (x, acts) := by
  unfold Window.threeD at h3
  rw [Bool.and_eq_true, beq_iff_eq, Bool.not_eq_true'] at h3
  obtain ⟨W', k₁, l₁, hW, hread, rfl⟩ := Printer.exists_of_bind_ok h
  obtain ⟨rfl, rfl⟩ := window_of_ctx hW
  obtain ⟨d, k₂, l₂, hd, hrest, rfl⟩ := Printer.exists_of_bind_ok hread
  obtain ⟨rfl, rfl⟩ := word_of_data hd
  rw [h3.1] at hrest
  rw [h3.2, if_neg Bool.false_ne_true] at hrest
  by_cases hgen3 : W'.devid.IS_GEN3 = true
  · rw [if_pos hgen3] at hrest
    exact decode_3d_table_primitive hop hrest
  · rw [if_neg hgen3] at hrest
    exact decode_3d_table_primitive hop hrest

/-- What an inline primitive prints. -/
theorem decode_3d_primitive_inline (hinline : W.inline = true) (hlen : W.inlineLength ≤ W.count)
    (hclear : W.clearRect = false) (h : decode_3d_primitive S W = .ok (x, acts)) :
    ∃ text l, inline_vertices S W.inlineLength W = .ok ((), l) ∧ acts = .instr 0 text :: l := by
  obtain ⟨W', k₁, l₁, hW, hread, rfl⟩ := Printer.exists_of_bind_ok h
  obtain ⟨rfl, rfl⟩ := window_of_ctx hW
  obtain ⟨d, k₂, l₂, hd, hform, rfl⟩ := Printer.exists_of_bind_ok hread
  obtain ⟨rfl, rfl⟩ := word_of_data hd
  dsimp only at hform
  rw [if_pos (show (!bit (W'.word 0) 23) = true from hinline), Saved.override,
    if_neg (beq_eq_false_iff_ne.mp hclear)] at hform
  obtain ⟨_, k₃, l₃, hprint, hlong, rfl⟩ := Printer.exists_of_bind_ok hform
  rw [if_neg (show ¬ W'.count < field (W'.word 0) 0 0x3ffff + 2 from Nat.not_lt_of_le hlen)] at hlong
  obtain ⟨_, k₄, l₄, hvertices, hret, rfl⟩ := Printer.exists_of_bind_ok hlong
  cases hprint
  cases hret
  exact ⟨_, k₄, hvertices, by rw [List.append_nil]; rfl⟩

theorem drawsInline_acts {dump_past_end : Bool} (hdraws : W.drawsInline = true)
    (h : decode_packet dump_past_end S W = .ok (x, acts)) :
    ∃ text l, inline_vertices S W.inlineLength W = .ok ((), l) ∧ acts = .instr 0 text :: l := by
  unfold Window.drawsInline at hdraws
  rw [Bool.and_eq_true, Bool.and_eq_true, Bool.and_eq_true, Bool.and_eq_true, beq_iff_eq, decide_eq_true_iff,
    Bool.not_eq_true'] at hdraws
  obtain ⟨⟨⟨⟨h3, hop⟩, hinline⟩, hlen⟩, hclear⟩ := hdraws
  exact decode_3d_primitive_inline hinline hlen hclear (decode_packet_primitive h3 hop h)

/-- With no coordinates in the S4 that was left behind, the first vertex has a bad position. -/
theorem vertices_bad {len : Nat} {l : List Action} (hs4 : S.s4 = 0) {fuel : Nat} (hlen : 1 < len)
    (h : vertices S len (fuel + 1) 1 0 W = .ok ((), l)) : badPosition ∈ l := by
  unfold vertices at h
  rw [if_pos hlen] at h
  obtain ⟨_, _, _, hvertex, -, rfl⟩ := Printer.exists_of_bind_ok h
  obtain ⟨_, _, _, -, hy, rfl⟩ := Printer.exists_of_bind_ok hvertex
  obtain ⟨_, _, _, -, hrest, rfl⟩ := Printer.exists_of_bind_ok hy
  obtain ⟨_, _, _, hposition, -, rfl⟩ := Printer.exists_of_bind_ok hrest
  rw [hs4] at hposition
  obtain ⟨_, _, _, hprint, -, rfl⟩ := Printer.exists_of_bind_ok hposition
  cases hprint
  refine List.mem_append_left _ (List.mem_append_right _ (List.mem_append_right _ (List.mem_append_left _ ?_)))
  exact List.mem_append_left _ (List.mem_singleton.mpr rfl)

theorem inline_vertices_bad {len : Nat} {l : List Action} (hset : S.s2_set = true ∧ S.s4_set = true) (hs4 : S.s4 = 0)
    (hlen : 1 < len) (h : inline_vertices S len W = .ok ((), l)) : badPosition ∈ l := by
  unfold inline_vertices at h
  rw [hset.1, hset.2, if_neg (by decide)] at h
  obtain ⟨n, rfl⟩ : ∃ n, len = n + 1 := ⟨len - 1, by omega⟩
  exact vertices_bad hs4 hlen h

/-! ## One that does not print the line -/

theorem VERTEX_OUT_avoids (len vertex : Nat) (fmt : String) (args : BitVec 32 → List Arg) (i : Nat) :
    Avoids badPosition W (VERTEX_OUT len vertex fmt args i) := by
  refine Avoids.ite (fun _ => ?_) fun _ => ?_
  · refine Avoids.bind (fun d k hd hmem => ?_) fun d => ?_
    · rw [(word_of_data hd).2] at hmem
      cases hmem
    · exact Avoids.bind (.put (by rintro ⟨⟩)) fun _ => .pure
  · exact Avoids.bind (.put (badPosition_ne (by decide))) fun _ => .pure

theorem optional_avoids {c : Bool} {p : Nat → Decoder Nat} (hp : ∀ i, Avoids badPosition W (p i)) (i : Nat) :
    Avoids badPosition W (optional c p i) := Avoids.ite (fun _ => hp i) fun _ => .pure

theorem vertex_texcoord_avoids (s2 : BitVec 32) (len vertex i tc : Nat) :
    Avoids badPosition W (vertex_texcoord s2 len vertex i tc) := by
  unfold vertex_texcoord
  split
  · exact .foldlM (fun _ _ => VERTEX_OUT_avoids _ _ _ _ _) _ _
  · exact .foldlM (fun _ _ => VERTEX_OUT_avoids _ _ _ _ _) _ _
  · exact .foldlM (fun _ _ => VERTEX_OUT_avoids _ _ _ _ _) _ _
  · exact VERTEX_OUT_avoids _ _ _ _ _
  · exact VERTEX_OUT_avoids _ _ _ _ _
  · exact .bind (VERTEX_OUT_avoids _ _ _ _ _) fun _ => VERTEX_OUT_avoids _ _ _ _ _
  · exact .pure
  · exact .bind (.put (badPosition_ne (by decide))) fun _ => .pure

/-- S4 has X and Y only. -/
theorem vertex_out_avoids (hs4 : field S.s4 6 0x7 = 0x3) (len vertex i : Nat) :
    Avoids badPosition W (vertex_out S len vertex i) := by
  refine .bind (VERTEX_OUT_avoids _ _ _ _ _) fun i => .bind (VERTEX_OUT_avoids _ _ _ _ _) fun i => .bind ?_ fun i => ?_
  · unfold vertex_position
    rw [hs4]
    exact .pure
  · refine .bind ?_ fun i => .foldlM (fun i tc => vertex_texcoord_avoids _ _ _ i tc) _ _
    refine .bind (optional_avoids (VERTEX_OUT_avoids _ _ _ _) _) fun i => ?_
    exact .bind (optional_avoids (VERTEX_OUT_avoids _ _ _ _) _) fun i => optional_avoids (VERTEX_OUT_avoids _ _ _ _) _

theorem vertices_avoids (hs4 : field S.s4 6 0x7 = 0x3) (len fuel i vertex : Nat) :
    Avoids badPosition W (vertices S len fuel i vertex) := by
  induction fuel generalizing i vertex with
  | zero => exact .ite (fun _ => .fail) fun _ => .pure
  | succ fuel ih => exact .ite (fun _ => .bind (vertex_out_avoids hs4 _ _ _) fun i => ih i _) fun _ => .pure

theorem inline_vertices_good {len : Nat} {l : List Action} (hset : S.s2_set = true ∧ S.s4_set = true)
    (hs4 : field S.s4 6 0x7 = 0x3) (h : inline_vertices S len W = .ok ((), l)) : badPosition ∉ l := by
  unfold inline_vertices at h
  rw [hset.1, hset.2, if_neg (by decide)] at h
  exact vertices_avoids hs4 _ _ _ _ () l h

end Drawing

end LibDrm.Decode
