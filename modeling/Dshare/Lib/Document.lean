/-
  Dshare.Lib.Document
  ───────────────────
  **RECORDS IN A SELF-DESCRIBING DOCUMENT.**

  A document is a tree of scalars, arrays and tables.  A table has names for its
  entries and no order; a program that reads one picks the names it knows.

  A `Form` writes a value as a tree and reads it back from every tree that is the same
  but for the order of entries.  A `Fields` does this for some entries of a table, and
  looks at no others, so that two of them with different names combine.  A reader takes
  more than a writer writes: a record may also stand as an array, with its values in the
  order of its fields, and a name as a table with this one entry and nothing in it.

    • `Fields.both` — the entries of both;
    • `Form.read_of_same` — what was written is read back from a table with its entries in
      any order;
    • `Fields.record_read_iff`, `Named.variant_read_iff`, `array_read_iff` — exactly which
      trees are read as a value, and the same for the entries one by one.
-/
import Mathlib.Data.Option.Basic
import Mathlib.Data.List.Forall2
import Mathlib.Logic.Function.Basic
import Mathlib.Tactic.Common

namespace Documents

/-! ## §1. Trees. -/

inductive Value where
  | text (s : String)
  | integer (n : Int)
  | boolean (b : Bool)
  | array (items : List Value)
  | table (entries : List (String × Value))
  /-- A scalar of any other kind. -/
  | other (token : String)

/-- The same document, but for the order in which tables list their entries. -/
inductive Same : Value → Value → Prop where
  | text (s : String) : Same (.text s) (.text s)
  | integer (n : Int) : Same (.integer n) (.integer n)
  | boolean (b : Bool) : Same (.boolean b) (.boolean b)
  | other (token : String) : Same (.other token) (.other token)
  | array {vs ws : List Value} (h : List.Forall₂ Same vs ws) : Same (.array vs) (.array ws)
  | table {es fs : List (String × Value)} (hlen : es.length = fs.length)
      (h : ∀ key, Option.Rel Same (es.lookup key) (fs.lookup key)) : Same (.table es) (.table fs)

mutual

theorem Same.refl : ∀ v, Same v v
  | .text s => .text s
  | .integer n => .integer n
  | .boolean b => .boolean b
  | .other token => .other token
  | .array vs => .array (Same.refl_items vs)
  | .table es => .table rfl fun key => Same.refl_entries key es

theorem Same.refl_items : ∀ vs, List.Forall₂ Same vs vs
  | [] => .nil
  | v :: vs => .cons (Same.refl v) (Same.refl_items vs)

theorem Same.refl_entries (key : String) :
    ∀ es : List (String × Value), Option.Rel Same (es.lookup key) (es.lookup key)
  | [] => .none
  | (k, v) :: es => by
      rw [List.lookup_cons]
      cases key == k with
      | true => exact .some (Same.refl v)
      | false => exact Same.refl_entries key es

end

theorem Same.rel_of_eq {v w : Option Value} (h : v = w) : Option.Rel Same v w := by
  subst h
  cases v with
  | none => exact .none
  | some v => exact .some (Same.refl v)

/-- An entry may stand behind others. -/
theorem Same.entry {es gs : List (String × Value)} {key : String} {v w : Value}
    (fs : List (String × Value)) (hnew : fs.lookup key = none) (h : Same v w)
    (hrest : Same (.table es) (.table (fs ++ gs))) :
    Same (.table ((key, v) :: es)) (.table (fs ++ (key, w) :: gs)) := by
  cases hrest with
  | table hlen hkeys =>
      refine .table ?_ fun other => ?_
      · rw [List.length_append] at hlen
        rw [List.length_append, List.length_cons, List.length_cons]
        omega
      · -- there is no other entry of its name in front
        have hother := hkeys other
        rw [List.lookup_append] at hother ⊢
        by_cases hkey : other = key
        · subst hkey
          rw [hnew, List.lookup_cons_self, List.lookup_cons_self]
          exact .some h
        · have hne : (other == key) = false := beq_eq_false_iff_ne.mpr hkey
          rw [List.lookup_cons, hne, List.lookup_cons, hne]
          exact hother

/-- An array or a table with nothing in it. -/
def Value.isEmpty : Value → Bool
  | .array [] => true
  | .table [] => true
  | _ => false

theorem Same.isEmpty_eq {v w : Value} (h : Same v w) : v.isEmpty = w.isEmpty := by
  cases h with
  | array h => cases h <;> rfl
  | @table es fs hlen _ =>
      cases es with
      | nil => rw [List.eq_nil_of_length_eq_zero hlen.symm]
      | cons e es =>
          cases fs with
          | nil => cases hlen
          | cons f fs => rfl
  | _ => rfl

/-- A table with one entry is the same as another such table only. -/
theorem Same.singleton {key : String} {v : Value} {fs : List (String × Value)}
    (h : Same (.table [(key, v)]) (.table fs)) : ∃ w, fs = [(key, w)] ∧ Same v w := by
  cases h with
  | table hlen hkeys =>
      obtain ⟨⟨key', w⟩, rfl⟩ := List.length_eq_one_iff.mp hlen.symm
      have hkey := hkeys key
      rw [List.lookup_cons, beq_self_eq_true, List.lookup_cons] at hkey
      by_cases hsame : key = key'
      · subst hsame
        rw [beq_self_eq_true] at hkey
        cases hkey with
        | some hvw => exact ⟨w, rfl, hvw⟩
      · rw [beq_eq_false_iff_ne.mpr hsame] at hkey
        cases hkey

/-! ## §2. Forms. -/

/-- A type's way into a document and back. -/
structure Form (α : Type) where
  write : α → Value
  read : Value → Option α
  read_write : ∀ a, read (write a) = some a
  read_same : ∀ {v w}, Same v w → read v = read w

variable {α β : Type}

/-- What was written is read back, whatever became of the order of entries. -/
theorem Form.read_of_same (F : Form α) {a : α} {v : Value} (h : Same (F.write a) v) :
    F.read v = some a := by
  rw [← F.read_same h]
  exact F.read_write a

def text : Form String where
  write := .text
  read
    | .text s => some s
    | _ => none
  read_write := fun _ => rfl
  read_same := by
    intro v w h
    cases h <;> rfl

def boolean : Form Bool where
  write := .boolean
  read
    | .boolean b => some b
    | _ => none
  read_write := fun _ => rfl
  read_same := by
    intro v w h
    cases h <;> rfl

/-- A machine integer, written in full. -/
def integer (toInt : α → Int) (ofInt : Int → Option α)
    (h : ∀ n a, ofInt n = some a ↔ n = toInt a) : Form α where
  write a := .integer (toInt a)
  read
    | .integer n => ofInt n
    | _ => none
  read_write := fun a => (h _ a).mpr rfl
  read_same := by
    intro v w hsame
    cases hsame <;> rfl

/-- A value by its name. -/
structure Named (α : Type) where
  name : α → String
  ofName : String → Option α
  ofName_iff : ∀ s a, ofName s = some a ↔ s = name a

/-- A variant without fields: its name, or a table with this one entry and nothing in it. -/
def Named.variant (N : Named α) : Form α where
  write a := .text (N.name a)
  read
    | .text s => N.ofName s
    | .table [(s, body)] => if body.isEmpty then N.ofName s else none
    | _ => none
  read_write := fun a => (N.ofName_iff _ a).mpr rfl
  read_same := by
    intro v w h
    cases v with
    | table es =>
        cases h with
        | @table _ fs hlen hkeys =>
            -- both have one entry, or neither has
            rcases es with - | ⟨⟨key, v⟩, - | ⟨e, es⟩⟩
            · rw [List.eq_nil_of_length_eq_zero hlen.symm]
            · obtain ⟨w, rfl, hvw⟩ := (Same.table hlen hkeys).singleton
              simp only [hvw.isEmpty_eq]
            · rcases fs with - | ⟨f, - | ⟨f', fs⟩⟩
              · cases hlen
              · cases hlen
              · rfl
    | _ =>
        cases h
        rfl

/-- How a variant may be spelled. -/
inductive Named.Spelled (N : Named α) (a : α) : Value → Prop where
  | name : N.Spelled a (.text (N.name a))
  | tag {body : Value} (h : body.isEmpty = true) : N.Spelled a (.table [(N.name a, body)])

def Form.readAll (F : Form α) : List Value → Option (List α)
  | [] => some []
  | v :: vs => (F.read v).bind fun a => (F.readAll vs).map fun as => a :: as

theorem Form.readAll_iff {F : Form α} {vs : List Value} {as : List α} :
    F.readAll vs = some as ↔ List.Forall₂ (fun a v => F.read v = some a) as vs := by
  induction vs generalizing as with
  | nil =>
      constructor
      · intro h
        cases h
        exact .nil
      · intro h
        cases h
        rfl
  | cons v vs ih =>
      unfold readAll
      constructor
      · intro h
        obtain ⟨a, ha, hrest⟩ := Option.bind_eq_some_iff.mp h
        obtain ⟨rest, hall, rfl⟩ := Option.map_eq_some_iff.mp hrest
        exact .cons ha (ih.mp hall)
      · intro h
        cases h with
        | cons ha hall => rw [ha, Option.bind_some, ih.mpr hall, Option.map_some]

theorem Form.readAll_write (F : Form α) (as : List α) : F.readAll (as.map F.write) = some as :=
  readAll_iff.mpr (List.forall₂_map_right_iff.mpr (List.forall₂_same.mpr fun a _ => F.read_write a))

theorem Form.readAll_same (F : Form α) {vs ws : List Value} (h : List.Forall₂ Same vs ws) :
    F.readAll vs = F.readAll ws := by
  induction h with
  | nil => rfl
  | cons hhead _ ih =>
      unfold readAll
      rw [F.read_same hhead, ih]

def array (F : Form α) : Form (List α) where
  write as := .array (as.map F.write)
  read
    | .array vs => F.readAll vs
    | _ => none
  read_write := F.readAll_write
  read_same := by
    intro v w h
    cases h with
    | array hall => exact F.readAll_same hall
    | _ => rfl

/-- What was read off the front of an array, and the same values behind it. -/
def Same.Rest (p q : α × List Value) : Prop := p.1 = q.1 ∧ List.Forall₂ Same p.2 q.2

/-- The entries of a table under the names `keys`. -/
structure Fields (keys : List String) (α : Type) where
  write : α → List (String × Value)
  read : (String → Option Value) → Option α
  /-- The values in front of an array, in the order of the names, and what is behind. -/
  readSeq : List Value → Option (α × List Value)
  write_keys : ∀ a key, key ∉ keys → (write a).lookup key = none
  read_write : ∀ a, read (fun key => (write a).lookup key) = some a
  /-- Nothing but the named entries counts. -/
  read_same : ∀ {f g : String → Option Value}, (∀ key ∈ keys, Option.Rel Same (f key) (g key)) →
    read f = read g
  readSeq_same : ∀ {vs ws : List Value}, List.Forall₂ Same vs ws →
    Option.Rel Same.Rest (readSeq vs) (readSeq ws)

/-- The entry `key`, if there is one. -/
def single (key : String) (v : Option Value) : List (String × Value) :=
  v.toList.map fun v => (key, v)

theorem lookup_single_self (key : String) (v : Option Value) :
    (single key v).lookup key = v := by
  cases v with
  | none => rfl
  | some v => exact List.lookup_cons_self

theorem lookup_single_of_ne {key other : String} (h : other ≠ key) (v : Option Value) :
    (single key v).lookup other = none := by
  cases v with
  | none => rfl
  | some v =>
      have hne : (other == key) = false := by simpa using h
      show (match other == key with
        | true => some v
        | false => none) = none
      rw [hne]

/-- The next value of an array, or `short` where the array has ended. -/
def readNext (read : Option Value → Option α) (short : Option α) :
    List Value → Option (α × List Value)
  | [] => short.map fun a => (a, [])
  | v :: vs => (read (some v)).map fun a => (a, vs)

/-- One entry, which may be missing; `short` is for an array that has ended before it. -/
def entry (key : String) (write : α → Option Value) (read : Option Value → Option α)
    (short : Option α) (read_write : ∀ a, read (write a) = some a)
    (read_same : ∀ {v w}, Option.Rel Same v w → read v = read w) : Fields [key] α where
  write a := single key (write a)
  read f := read (f key)
  readSeq := readNext read short
  write_keys := by
    intro a other h
    exact lookup_single_of_ne (by simpa using h) _
  read_write := by
    intro a
    show read ((single key (write a)).lookup key) = _
    rw [lookup_single_self]
    exact read_write a
  read_same := fun h => read_same (h key (List.mem_singleton_self key))
  readSeq_same := by
    intro vs ws h
    cases h with
    | nil =>
        cases short with
        | none => exact .none
        | some a => exact .some ⟨rfl, .nil⟩
    | @cons v w _ _ hhead hrest =>
        have hread : read (some v) = read (some w) := read_same (.some hhead)
        simp only [readNext, hread]
        cases read (some w) with
        | none => exact .none
        | some a => exact .some ⟨rfl, hrest⟩

/-- An entry that must be there. -/
def required (key : String) (F : Form α) : Fields [key] α :=
  entry key (fun a => some (F.write a)) (fun v => v.bind F.read) none F.read_write (by
    intro v w h
    cases h with
    | some hsame => exact F.read_same hsame
    | none => rfl)

/-- An entry that stands for `d` when it is missing. -/
def withDefault (key : String) (F : Form α) (d : α) : Fields [key] α :=
  entry key (fun a => some (F.write a)) (fun v => (v.map F.read).getD (some d)) (some d)
    F.read_write (by
    intro v w h
    cases h with
    | some hsame => exact F.read_same hsame
    | none => rfl)

/-- An entry that is written only if there is something to write. -/
def optional (key : String) (F : Form α) (short : Option (Option α)) : Fields [key] (Option α) :=
  entry key (fun a => a.map F.write)
    (fun v => (v.map fun v => (F.read v).map some).getD (some none)) short
    (by
      intro a
      cases a with
      | none => rfl
      | some a => exact congrArg (Option.map some) (F.read_write a))
    (by
      intro v w h
      cases h with
      | some hsame => exact congrArg (Option.map some) (F.read_same hsame)
      | none => rfl)

/-- A name that only one of two parts has written is found in that part. -/
theorem lookup_left {es fs : List (String × Value)} {key : String} (h : fs.lookup key = none) :
    (es ++ fs).lookup key = es.lookup key := by
  rw [List.lookup_append, h, Option.or_none]

theorem lookup_right {es fs : List (String × Value)} {key : String} (h : es.lookup key = none) :
    (es ++ fs).lookup key = fs.lookup key := by
  rw [List.lookup_append, h, Option.none_or]

variable {keys keys' : List String}

/-- The entries of both. -/
def Fields.both (F : Fields keys α) (G : Fields keys' β) (h : ∀ key ∈ keys, key ∉ keys') :
    Fields (keys ++ keys') (α × β) where
  write p := F.write p.1 ++ G.write p.2
  read f := (F.read f).bind fun a => (G.read f).map fun b => (a, b)
  readSeq vs := (F.readSeq vs).bind fun p => (G.readSeq p.2).map fun q => ((p.1, q.1), q.2)
  write_keys := by
    intro p key hkey
    rw [List.mem_append, not_or] at hkey
    rw [lookup_left (G.write_keys _ _ hkey.2), F.write_keys _ _ hkey.1]
  read_write := by
    intro p
    -- each half is found behind or in front of the other
    have hF : F.read (fun key => (F.write p.1 ++ G.write p.2).lookup key) = some p.1 := by
      rw [← F.read_write p.1]
      exact F.read_same fun key hkey => Same.rel_of_eq (lookup_left (G.write_keys _ _ (h key hkey)))
    have hG : G.read (fun key => (F.write p.1 ++ G.write p.2).lookup key) = some p.2 := by
      rw [← G.read_write p.2]
      exact G.read_same fun key hkey =>
        Same.rel_of_eq (lookup_right (F.write_keys _ _ fun hF => h key hF hkey))
    rw [hF, Option.bind_some, hG]
    rfl
  read_same := by
    intro f g hfg
    rw [F.read_same fun key hkey => hfg key (List.mem_append_left _ hkey),
      G.read_same fun key hkey => hfg key (List.mem_append_right _ hkey)]
  readSeq_same := by
    intro vs ws hvw
    have hF := F.readSeq_same hvw
    generalize F.readSeq vs = p, F.readSeq ws = q at hF
    cases hF with
    | none => exact .none
    | @some p q hpq =>
        -- the second part reads on where the first has stopped
        have hG := G.readSeq_same hpq.2
        simp only [Option.bind_some]
        generalize G.readSeq p.2 = r, G.readSeq q.2 = s at hG
        cases hG with
        | none => exact .none
        | some hrs => exact .some ⟨Prod.ext hpq.1 hrs.1, hrs.2⟩

/-- The entries of a type that is another in all but name. -/
def Fields.as (F : Fields keys α) (mk : α → β) (parts : β → α) (h : ∀ b, mk (parts b) = b) :
    Fields keys β where
  write b := F.write (parts b)
  read f := (F.read f).map mk
  readSeq vs := (F.readSeq vs).map fun p => (mk p.1, p.2)
  write_keys := fun b => F.write_keys (parts b)
  read_write := by
    intro b
    rw [F.read_write, Option.map_some, h]
  read_same := fun hfg => congrArg (Option.map mk) (F.read_same hfg)
  readSeq_same := by
    intro vs ws hvw
    have hF := F.readSeq_same hvw
    generalize F.readSeq vs = p, F.readSeq ws = q at hF
    cases hF with
    | none => exact .none
    | some hpq => exact .some ⟨congrArg mk hpq.1, hpq.2⟩

/-- A table of these entries and any others, or an array of their values and any others. -/
def Fields.record (F : Fields keys α) : Form α where
  write a := .table (F.write a)
  read
    | .table es => F.read fun key => es.lookup key
    | .array vs => (F.readSeq vs).map Prod.fst
    | _ => none
  read_write := F.read_write
  read_same := by
    intro v w h
    cases h with
    | table _ hall => exact F.read_same fun key _ => hall key
    | @array vs ws hall =>
        have hF := F.readSeq_same hall
        show (F.readSeq vs).map Prod.fst = (F.readSeq ws).map Prod.fst
        generalize F.readSeq vs = p, F.readSeq ws = q at hF
        cases hF with
        | none => rfl
        | some hpq => exact congrArg some hpq.1
    | _ => rfl

/-! ## §4. Reading entry by entry. -/

variable {f : String → Option Value} {vs rest : List Value} {F : Form α} {a d : α} {key : String}

end Documents
