/-
# `LibDrm.Hash.Tags` — the context tags of `xf86drm.c`

The first hash table leads from a device to its entry, whose own table leads from a context
to its tag.  Both are made when they are first needed.

    drmGetEntry          the entry of the device that a descriptor is open on, made if it is missing
    drmAddContextTag     sets the tag, replacing an old one
    drmDelContextTag, drmGetContextTag
    drmClose             destroys the entry

The key of the first table is the device number, not the descriptor: closing one descriptor
of a device forgets the tags that were set through the others (`tags_refine_map`).
-/
import LibDrm.Hash.Table
import LibDrm.Lib.Arith

namespace LibDrm.Hash

variable {T : Type}

/-- `drmHashEntry`. -/
structure HashEntry (T : Type) where
  fd : Int
  tagTable : HashTable T

/-- The static `drmHashTable`, and the entries that it leads to. -/
structure Entries (T : Type) where
  table : Option (HashTable Ptr)
  entry : Ptr → Option (HashEntry T)
  fresh : Ptr

/-- Before the first call. -/
def noEntries : Entries T := ⟨none, fun _ => none, 0⟩

def Entries.setTags (s : Entries T) (e : Ptr) (entry : HashEntry T) (tags : HashTable T) : Entries T :=
  { s with entry := Function.update s.entry e (some { entry with tagTable := tags }) }

section

variable (hash : UInt64 → Fin HASH_SIZE) (p0 : Nat) (p1 : Option Ptr)

/-- The table, made if there is none yet. -/
def Entries.hashTable (s : Entries T) : HashTable Ptr := s.table.getD (drmHashCreate Ptr p0 p1)

/-- `drmGetEntry`; `key` is the device that `fd` is open on. -/
def drmGetEntry (key : UInt64) (fd : Int) (s : Entries T) : Except Fault (Ptr × Entries T) := do
  let ((r, value), table) ← drmHashLookup hash key (s.hashTable p0 p1)
  if r ≠ 0 then
    let (_, table) ← drmHashInsert hash true key s.fresh table
    return (s.fresh, ⟨some table, Function.update s.entry s.fresh (some ⟨fd, drmHashCreate T p0 p1⟩), s.fresh + 1⟩)
  else
    return (← deref value, { s with table := some table })

def drmAddContextTag (key : UInt64) (fd : Int) (context : UInt64) (tag : T) (s : Entries T) :
    Except Fault (Int × Entries T) := do
  let (e, s) ← drmGetEntry hash p0 p1 key fd s
  let entry ← deref (s.entry e)
  let (r, tags) ← drmHashInsert hash true context tag entry.tagTable
  if r ≠ 0 then
    let (_, tags) ← drmHashDelete hash context tags
    let (_, tags) ← drmHashInsert hash true context tag tags
    return (0, s.setTags e entry tags)
  else
    return (0, s.setTags e entry tags)

def drmDelContextTag (key : UInt64) (fd : Int) (context : UInt64) (s : Entries T) : Except Fault (Int × Entries T) := do
  let (e, s) ← drmGetEntry hash p0 p1 key fd s
  let entry ← deref (s.entry e)
  let (r, tags) ← drmHashDelete hash context entry.tagTable
  return (r, s.setTags e entry tags)

/-- `NULL` where there is no tag. -/
def drmGetContextTag (key : UInt64) (fd : Int) (context : UInt64) (s : Entries T) :
    Except Fault (Option T × Entries T) := do
  let (e, s) ← drmGetEntry hash p0 p1 key fd s
  let entry ← deref (s.entry e)
  let ((r, value), tags) ← drmHashLookup hash context entry.tagTable
  return (if r ≠ 0 then .none else value, s.setTags e entry tags)

/-- `drmClose` before it closes the descriptor. -/
def drmClose (key : UInt64) (fd : Int) (s : Entries T) : Except Fault (Entries T) := do
  let (e, s) ← drmGetEntry hash p0 p1 key fd s
  let _ ← deref (s.entry e)
  let (_, table) ← drmHashDelete hash key (s.hashTable p0 p1)
  return { s with table := some table, entry := Function.update s.entry e .none }

end

/-! ## The calls, and the map -/

/-- A call, by the device that its descriptor is open on. -/
inductive TagCall (T : Type) where
  | add (key : UInt64) (fd : Int) (context : UInt64) (tag : T)
  | del (key : UInt64) (fd : Int) (context : UInt64)
  | get (key : UInt64) (fd : Int) (context : UInt64)
  | close (key : UInt64) (fd : Int)

def TagCall.run (hash : UInt64 → Fin HASH_SIZE) (p0 : Nat) (p1 : Option Ptr) (s : Entries T) :
    TagCall T → Except Fault (Result T × Entries T)
  | .add key fd context tag => do
      let (r, s) ← drmAddContextTag hash p0 p1 key fd context tag s
      return ((r, .none), s)
  | .del key fd context => do
      let (r, s) ← drmDelContextTag hash p0 p1 key fd context s
      return ((r, .none), s)
  | .get key fd context => do
      let (tag, s) ← drmGetContextTag hash p0 p1 key fd context s
      return ((0, tag), s)
  | .close key fd => do
      let s ← drmClose hash p0 p1 key fd s
      return ((0, .none), s)

def TagCall.runAll (hash : UInt64 → Fin HASH_SIZE) (p0 : Nat) (p1 : Option Ptr) :
    List (TagCall T) → Entries T → Except Fault (List (Result T) × Entries T)
  | [], s => .ok ([], s)
  | call :: calls, s => do
      let (r, s) ← call.run hash p0 p1 s
      let (rs, s) ← runAll hash p0 p1 calls s
      return (r :: rs, s)

/-- The tags of the contexts of the devices. -/
abbrev Tags (T : Type) := UInt64 → UInt64 → Option T

/-- The same call on the map. -/
def TagCall.spec (m : Tags T) : TagCall T → Result T × Tags T
  | .add key _ context tag => ((0, .none), Function.update m key (Function.update (m key) context (some tag)))
  | .del key _ context =>
      ((if (m key context).isSome then 0 else 1, .none), Function.update m key (Function.update (m key) context .none))
  | .get key _ context => ((0, m key context), m)
  | .close key _ => ((0, .none), Function.update m key fun _ => .none)

def TagCall.specAll : List (TagCall T) → Tags T → List (Result T) × Tags T
  | [], m => ([], m)
  | call :: calls, m =>
      let (r, m) := call.spec m
      let (rs, m) := specAll calls m
      (r :: rs, m)

/-! ## One table -/

variable {V : Type} {hash : UInt64 → Fin HASH_SIZE} {t : HashTable V} {m : UInt64 → Option V} {key : UInt64}

/-- The table stands for the map. -/
def Is (hash : UInt64 → Fin HASH_SIZE) (t : HashTable V) (m : UInt64 → Option V) : Prop :=
  Represents hash t m ∧ ∃ n, Counted t n

theorem Is.create (p0 : Nat) (p1 : Option Ptr) : Is hash (drmHashCreate V p0 p1) fun _ => .none :=
  ⟨drmHashCreate_represents hash p0 p1, 0, drmHashCreate_counted p0 p1⟩

theorem Is.lookup (h : Is hash t m) (key : UInt64) :
    Returns (drmHashLookup hash key t) fun r => r.1 = ((Op.lookup key).spec m).1 ∧ Is hash r.2 m := by
  obtain ⟨hr, n, hc⟩ := h
  refine (Op.run_spec hr hc (.lookup key)).mono fun r ⟨hres, hr', hc'⟩ => ⟨hres, ?_, n + 1, hc'⟩
  have hsame : ((Op.lookup key).spec m).2 = m := by
    unfold Op.spec
    dsimp only
    split <;> rfl
  rwa [hsame] at hr'

theorem Is.insert (h : Is hash t m) (key : UInt64) (value : V) : Returns (drmHashInsert hash true key value t) fun r =>
    (r.1, none) = ((Op.insert key value).spec m).1 ∧ Is hash r.2 ((Op.insert key value).spec m).2 := by
  obtain ⟨hr, n, hc⟩ := h
  obtain ⟨⟨r, t'⟩, hrun, hres, hr', hc'⟩ := Op.run_spec hr hc (.insert key value)
  obtain ⟨⟨r₁, t₁⟩, hrun₁, hret⟩ := exists_of_bind_ok hrun
  cases hret
  exact ⟨(r₁, t'), hrun₁, hres, hr', n + 1, hc'⟩

theorem Is.delete (h : Is hash t m) (key : UInt64) : Returns (drmHashDelete hash key t) fun r =>
    r.1 = (if (m key).isSome then 0 else 1) ∧ Is hash r.2 (Function.update m key none) := by
  obtain ⟨hr, n, hc⟩ := h
  obtain ⟨⟨r, t'⟩, hrun, hres, hr', hc'⟩ := Op.run_spec hr hc (.delete key)
  obtain ⟨⟨r₁, t₁⟩, hrun₁, hret⟩ := exists_of_bind_ok hrun
  cases hret
  cases hk : m key with
  | none =>
      simp only [Op.spec, hk] at hres hr'
      rw [← hk, Function.update_eq_self]
      exact ⟨(r₁, t'), hrun₁, (Prod.mk.inj hres).1.trans (by rw [hk]; rfl), hr', n + 1, hc'⟩
  | some v =>
      simp only [Op.spec, hk] at hres hr'
      exact ⟨(r₁, t'), hrun₁, (Prod.mk.inj hres).1, hr', n + 1, hc'⟩

/-! ## The entries -/

variable {p0 : Nat} {p1 : Option Ptr} {s : Entries T} {M : UInt64 → Option Ptr} {tags : Tags T} {fd : Int} {e : Ptr}

/-- The first table stands for `M`, and the entries it leads to for the tags of the devices. -/
structure Entries.Rep (hash : UInt64 → Fin HASH_SIZE) (p0 : Nat) (p1 : Option Ptr) (s : Entries T)
    (M : UInt64 → Option Ptr) (tags : Tags T) : Prop where
  table : Is hash (s.hashTable p0 p1) M
  entry : ∀ key e, M key = some e → ∃ entry, s.entry e = some entry ∧ Is hash entry.tagTable (tags key)
  missing : ∀ key, M key = none → tags key = fun _ => none
  distinct : ∀ key key' e, M key = some e → M key' = some e → key = key'
  known : ∀ key e, M key = some e → e < s.fresh

theorem noEntries_rep : Entries.Rep hash p0 p1 (noEntries : Entries T) (fun _ => none) fun _ _ => none where
  table := .create p0 p1
  entry _ _ h := (by cases h)
  missing _ _ := rfl
  distinct _ _ _ h := (by cases h)
  known _ _ h := (by cases h)

/-- The device has an entry afterwards, and the tags are the same. -/
theorem drmGetEntry_spec (h : s.Rep hash p0 p1 M tags) (key : UInt64) (fd : Int) :
    Returns (drmGetEntry hash p0 p1 key fd s) fun r => ∃ M', r.2.Rep hash p0 p1 M' tags ∧ M' key = some r.1 := by
  unfold drmGetEntry
  refine (h.table.lookup key).bind ?_
  rintro ⟨⟨r, value⟩, table⟩ ⟨hres, htable⟩
  cases hk : M key with
  | some e =>
      simp only [Op.spec, hk] at hres
      obtain ⟨rfl, rfl⟩ := Prod.mk.inj hres
      dsimp only
      rw [if_neg (by decide)]
      exact .ok ⟨M, ⟨htable, h.entry, h.missing, h.distinct, h.known⟩, hk⟩
  | none =>
      simp only [Op.spec, hk] at hres
      obtain ⟨rfl, rfl⟩ := Prod.mk.inj hres
      dsimp only
      rw [if_pos (by decide)]
      refine (htable.insert key s.fresh).bind ?_
      rintro ⟨r, table'⟩ ⟨-, htable'⟩
      simp only [Op.spec, hk] at htable'
      refine .ok ⟨Function.update M key (some s.fresh), ⟨htable', ?_, ?_, ?_, ?_⟩, Function.update_self ..⟩
      · intro key' e he
        rcases update_cases he with ⟨rfl, hnew⟩ | ⟨-, he⟩
        · obtain rfl := Option.some.inj hnew
          refine ⟨⟨fd, drmHashCreate T p0 p1⟩, Function.update_self .., ?_⟩
          rw [h.missing key' hk]
          exact .create p0 p1
        · dsimp only
          rw [Function.update_of_ne (Nat.ne_of_lt (h.known key' e he))]
          exact h.entry key' e he
      · intro key' he
        rcases update_cases he with ⟨-, he⟩ | ⟨-, he⟩
        · cases he
        · exact h.missing key' he
      · intro k₁ k₂ e h₁ h₂
        rcases update_cases h₁ with ⟨rfl, hnew⟩ | ⟨-, h₁⟩
        · obtain rfl := Option.some.inj hnew
          rcases update_cases h₂ with ⟨rfl, -⟩ | ⟨-, h₂⟩
          · rfl
          · exact absurd (h.known k₂ _ h₂) (Nat.lt_irrefl _)
        · rcases update_cases h₂ with ⟨-, he⟩ | ⟨-, h₂⟩
          · obtain rfl := Option.some.inj he
            exact absurd (h.known k₁ _ h₁) (Nat.lt_irrefl _)
          · exact h.distinct k₁ k₂ e h₁ h₂
      · intro key' e he
        rcases update_cases he with ⟨-, he⟩ | ⟨-, he⟩
        · obtain rfl := Option.some.inj he
          exact Nat.lt_succ_self _
        · exact Nat.lt_succ_of_lt (h.known key' e he)

/-- The tags of one device are set. -/
theorem Entries.Rep.setTags (h : s.Rep hash p0 p1 M tags) {key : UInt64} (he : M key = some e) (entry : HashEntry T)
    {t : HashTable T} {m : UInt64 → Option T} (ht : Is hash t m) :
    (s.setTags e entry t).Rep hash p0 p1 M (Function.update tags key m) where
  table := h.table
  entry key' e' he' := by
    by_cases hkey : key' = key
    · subst hkey
      obtain rfl := Option.some.inj (he.symm.trans he')
      refine ⟨{ entry with tagTable := t }, Function.update_self .., ?_⟩
      rwa [Function.update_self]
    · have hne : e' ≠ e := fun heq => hkey (h.distinct key' key e (heq ▸ he') he)
      rw [Function.update_of_ne hkey, Entries.setTags]
      dsimp only
      rw [Function.update_of_ne hne]
      exact h.entry key' e' he'
  missing key' hk := by
    have hkey : key' ≠ key := fun heq => (by rw [heq, he] at hk; cases hk)
    rw [Function.update_of_ne hkey]
    exact h.missing key' hk
  distinct := h.distinct
  known := h.known

/-- The entry of a device is destroyed. -/
theorem Entries.Rep.destroy (h : s.Rep hash p0 p1 M tags) {key : UInt64} (he : M key = some e) {table : HashTable Ptr}
    (ht : Is hash table (Function.update M key .none)) : Entries.Rep hash p0 p1
      { s with table := some table, entry := Function.update s.entry e .none } (Function.update M key .none)
      (Function.update tags key fun _ => .none) := by
  have hother : ∀ {k e'}, Function.update M key .none k = some e' → k ≠ key ∧ M k = some e' := by
    intro k e' hk
    rcases update_cases hk with ⟨-, hk⟩ | hother
    · cases hk
    · exact hother
  constructor
  · exact ht
  · intro key' e' he'
    obtain ⟨hkey, he'⟩ := hother he'
    have hne : e' ≠ e := fun heq => hkey (h.distinct key' key e (heq ▸ he') he)
    rw [Function.update_of_ne hkey]
    dsimp only
    rw [Function.update_of_ne hne]
    exact h.entry key' e' he'
  · intro key' hk
    rcases update_cases hk with ⟨rfl, -⟩ | ⟨hkey, hk⟩
    · exact Function.update_self ..
    · exact (Function.update_of_ne hkey _ _).trans (h.missing key' hk)
  · exact fun k₁ k₂ e' h₁ h₂ => h.distinct k₁ k₂ e' (hother h₁).2 (hother h₂).2
  · exact fun k e' hk => h.known k e' (hother hk).2

/-! ## The calls -/

/-- The entry that a call works on. -/
theorem getEntry_bind {α : Type} {P : α → Prop} {f : Ptr × Entries T → Except Fault α} (h : s.Rep hash p0 p1 M tags)
    (key : UInt64) (fd : Int) (hf : ∀ M' e s' entry, s'.Rep hash p0 p1 M' tags → M' key = some e → s'.entry e = some entry →
      Is hash entry.tagTable (tags key) → Returns (f (e, s')) P) :
    Returns (drmGetEntry hash p0 p1 key fd s >>= f) P := by
  refine (drmGetEntry_spec h key fd).bind ?_
  rintro ⟨e, s'⟩ ⟨M', hrep, he⟩
  obtain ⟨entry, hentry, hi⟩ := hrep.entry key e he
  exact hf M' e s' entry hrep he hentry hi

theorem TagCall.run_spec (h : s.Rep hash p0 p1 M tags) (call : TagCall T) : Returns (call.run hash p0 p1 s) fun r =>
    r.1 = (call.spec tags).1 ∧ ∃ M', r.2.Rep hash p0 p1 M' (call.spec tags).2 := by
  cases call with
  | add key fd context tag =>
      simp only [TagCall.run, drmAddContextTag, bind_assoc]
      refine getEntry_bind h key fd fun M' e s' entry hrep he hentry hi => ?_
      dsimp only
      rw [hentry]
      refine (hi.insert context tag).bind ?_
      rintro ⟨r, t⟩ ⟨hr, ht⟩
      cases hk : tags key context with
      | none =>
          simp only [Op.spec, hk] at hr ht
          obtain rfl := (Prod.mk.inj hr).1
          exact .ok ⟨rfl, M', hrep.setTags he _ ht⟩
      | some old =>
          simp only [Op.spec, hk] at hr ht
          obtain rfl := (Prod.mk.inj hr).1
          dsimp only
          rw [if_pos (by decide), bind_assoc]
          refine (ht.delete context).bind ?_
          rintro ⟨r₁, t₁⟩ ⟨-, ht₁⟩
          rw [bind_assoc]
          refine (ht₁.insert context tag).bind ?_
          rintro ⟨r₂, t₂⟩ ⟨-, ht₂⟩
          simp only [Op.spec, Function.update_self, Function.update_idem] at ht₂
          exact .ok ⟨rfl, M', hrep.setTags he _ ht₂⟩
  | del key fd context =>
      simp only [TagCall.run, drmDelContextTag, bind_assoc]
      refine getEntry_bind h key fd fun M' e s' entry hrep he hentry hi => ?_
      dsimp only
      rw [hentry]
      refine (hi.delete context).bind ?_
      rintro ⟨r, t⟩ ⟨hr, ht⟩
      exact .ok ⟨congrArg (·, none) hr, M', hrep.setTags he _ ht⟩
  | get key fd context =>
      simp only [TagCall.run, drmGetContextTag, bind_assoc]
      refine getEntry_bind h key fd fun M' e s' entry hrep he hentry hi => ?_
      dsimp only
      rw [hentry]
      refine (hi.lookup context).bind ?_
      rintro ⟨⟨r, value⟩, t⟩ ⟨hr, ht⟩
      have hkept := hrep.setTags he entry ht
      rw [Function.update_eq_self] at hkept
      refine .ok ⟨?_, M', hkept⟩
      cases hk : tags key context with
      | none | some =>
          simp only [Op.spec, hk] at hr
          obtain ⟨rfl, rfl⟩ := Prod.mk.inj hr
          simp only [TagCall.spec, hk]
          rfl
  | close key fd =>
      simp only [TagCall.run, drmClose, bind_assoc]
      refine getEntry_bind h key fd fun M' e s' entry hrep he hentry hi => ?_
      dsimp only
      rw [hentry]
      refine (hrep.table.delete key).bind ?_
      rintro ⟨r, table⟩ ⟨-, htable⟩
      exact .ok ⟨rfl, _, hrep.destroy he htable⟩

/-- Every sequence of calls returns what it returns on a map from devices and contexts to tags, in which closing any
    descriptor of a device removes all tags of the device. -/
theorem tags_refine_map (hash : UInt64 → Fin HASH_SIZE) (p0 : Nat) (p1 : Option Ptr) (calls : List (TagCall T)) :
    ∃ s, TagCall.runAll hash p0 p1 calls noEntries = .ok ((TagCall.specAll calls fun _ _ => none).1, s) := by
  suffices ∀ {s : Entries T} {M tags}, s.Rep hash p0 p1 M tags →
      ∃ s', TagCall.runAll hash p0 p1 calls s = .ok ((TagCall.specAll calls tags).1, s') from this noEntries_rep
  induction calls with
  | nil => exact fun {s _ _} _ => ⟨s, rfl⟩
  | cons call calls ih =>
      intro s M tags h
      obtain ⟨⟨r, s₁⟩, hrun, hres, M', hrep⟩ := TagCall.run_spec h call
      obtain ⟨s', hrest⟩ := ih hrep
      refine ⟨s', ?_⟩
      rw [TagCall.runAll, hrun]
      dsimp only at hres hrest
      rw [hres]
      show (TagCall.runAll hash p0 p1 calls s₁ >>= _) = _
      rw [hrest]
      rfl

end LibDrm.Hash
