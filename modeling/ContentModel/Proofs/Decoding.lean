import Mathlib.Data.List.Forall2
import ContentModel.Token
import ContentModel.Proofs.Binary64
import ContentModel.Proofs.Latest

/-!
This module contains what decoding makes of every token tree: which trees stand for a value, for which
value they stand, and which token the error is about when they stand for none.
-/

namespace ContentModel

section Bind

variable {ε α β : Type} {x : Except ε α} {f : α → Except ε β} {b : β} {e : ε}

theorem bind_eq_ok_iff : (x >>= f) = .ok b ↔ ∃ a, x = .ok a ∧ f a = .ok b := by
  cases x <;> simp [bind, Except.bind]

theorem bind_eq_error_iff :
    (x >>= f) = .error e ↔ x = .error e ∨ ∃ a, x = .ok a ∧ f a = .error e := by
  cases x <;> simp [bind, Except.bind]

end Bind

namespace Token

/--
What holds of a token when it holds of the tokens in it, keys left aside, holds of every token.
-/
@[elab_as_elim]
theorem inductionOn {motive : Token → Prop} (token : Token) (unit : motive .unit)
    (none : motive .none) (some : ∀ token, motive token → motive (.some token))
    (newtype : ∀ token, motive (.newtype token)) (boolean : ∀ b, motive (.boolean b))
    (signed : ∀ n, motive (.signed n)) (unsigned : ∀ n, motive (.unsigned n))
    (signed128 : ∀ n, motive (.signed128 n)) (unsigned128 : ∀ n, motive (.unsigned128 n))
    (binary32 : ∀ word, motive (.binary32 word)) (binary64 : ∀ x, motive (.binary64 x))
    (char : ∀ c, motive (.char c)) (string : ∀ s, motive (.string s))
    (bytes : ∀ b, motive (.bytes b)) (enum : ∀ variant content, motive (.enum variant content))
    (seq : ∀ hint items, (∀ token ∈ items, motive token) → motive (.seq hint items))
    (map : ∀ hint entries, (∀ entry ∈ entries, motive entry.2) → motive (.map hint entries)) :
    motive token := by
  refine @Token.rec motive (fun items => ∀ token ∈ items, motive token)
    (fun entries => ∀ entry ∈ entries, motive entry.2) (fun entry => motive entry.2) unit none some
    (fun token _ => newtype token) boolean signed unsigned signed128 unsigned128 binary32 binary64
    char string bytes (fun variant content _ _ => enum variant content) seq map ?_ ?_ ?_ ?_ ?_ token
  . intro token hmem
    cases hmem
  . intro token rest htoken hrest
    exact List.forall_mem_cons.mpr ⟨htoken, hrest⟩
  . intro entry hmem
    cases hmem
  . intro entry rest hentry hrest
    exact List.forall_mem_cons.mpr ⟨hentry, hrest⟩
  . intro name token _ htoken
    exact htoken

/--
The text that the token is.
-/
def text? : Token → Option String
  | .string s => .some s
  | .bytes b => String.fromUTF8? b
  | .char c => .some c.toString
  | _ => .none

/--
The announced number of items or entries.
-/
def hint? : Token → Option Nat
  | .seq hint _ => hint
  | .map hint _ => hint
  | _ => .none

/--
There is room for the items or entries that the token announces.
-/
def Fits (room : Room) : Token → Prop
  | .seq hint _ => ∀ n ∈ hint, room.items n = true
  | .map hint _ => ∀ n ∈ hint, room.entries n = true
  | _ => True

/--
The token is no value: a byte string, a newtype, an enum or an integer of 128 bits.
-/
def isForeign : Token → Bool
  | .newtype _ => true
  | .signed128 _ => true
  | .unsigned128 _ => true
  | .bytes _ => true
  | .enum .. => true
  | _ => false

/--
The token is a value and holds no other token.
-/
def isScalar : Token → Bool
  | .unit | .none | .boolean _ | .signed _ | .unsigned _ => true
  | .binary32 _ | .binary64 _ | .char _ | .string _ => true
  | _ => false

/--
What an error calls the token. Strings and characters are accepted everywhere, and no error is about
them.
-/
def found? : Token → Option Found
  | .unit => .some .unit
  | .none => .some .option
  | .some _ => .some .option
  | .newtype _ => .some .newtype
  | .boolean b => .some (.boolean b)
  | .signed n => .some (.integer n.toInt)
  | .unsigned n => .some (.integer n.toNat)
  | .signed128 n => .some (.signed128 n)
  | .unsigned128 n => .some (.unsigned128 n)
  | .binary32 word => .some (.float (.ofBinary32 word))
  | .binary64 x => .some (.float x)
  | .char _ => .none
  | .string _ => .none
  | .bytes _ => .some .bytes
  | .enum .. => .some .enum
  | .seq .. => .some .seq
  | .map .. => .some .map

/--
What the error about a key is. Bytes are of the right kind, and it is their content that is none.
-/
def keyError? : Token → Option DecodeError
  | .bytes _ => .some .notText
  | token => token.found?.map .notKey

/--
The token `inner` stands in the tree in the place of a value, which the place of a key is not.
-/
inductive Within (inner : Token) : Token → Prop where
  | self : Within inner inner
  | some {token : Token} (h : Within inner token) : Within inner (.some token)
  | item {hint : Option Nat} {items : List Token} {token : Token} (hmem : token ∈ items)
      (h : Within inner token) : Within inner (.seq hint items)
  | entry {hint : Option Nat} {entries : List (Token × Token)} {entry : Token × Token}
      (hmem : entry ∈ entries) (h : Within inner entry.2) : Within inner (.map hint entries)

/--
All that stands in the place of a value is one, all keys are texts, and there is room for all that is
announced.
-/
structure Readable (room : Room) (token : Token) : Prop where
  values : ∀ inner, Within inner token → inner.isForeign = false
  keys : ∀ hint entries, Within (.map hint entries) token →
    ∀ entry ∈ entries, entry.1.text?.isSome = true
  lengths : ∀ inner, Within inner token → inner.Fits room

/--
The value for which a token tree stands.
-/
inductive Means : Token → Value → Prop where
  | unit : Means .unit .null
  | none : Means .none .null
  | some {token : Token} {value : Value} (h : Means token value) : Means (.some token) value
  | boolean (b : Bool) : Means (.boolean b) (.boolean b)
  | signed (n : Int64) : Means (.signed n) (.integer n)
  | unsigned {n : UInt64} {m : Int64} (h : m.toInt = n.toNat) : Means (.unsigned n) (.integer m)
  | large {n : UInt64} {x : Binary64} (h : Int64.maxValue.toInt < n.toNat)
      (hx : x.IsNearest n.toNat) : Means (.unsigned n) (.float x)
  | binary32 {word : UInt32} {x : Binary64} (hx : x.Widens word) : Means (.binary32 word) (.float x)
  | binary64 (x : Binary64) : Means (.binary64 x) (.float x)
  | char (c : Char) : Means (.char c) (.string c.toString)
  | string (s : String) : Means (.string s) (.string s)
  | seq {hint : Option Nat} {items : List Token} {values : List Value}
      (h : List.Forall₂ Means items values) : Means (.seq hint items) (.list values)
  | map {hint : Option Nat} {entries : List (Token × Token)} {pairs : List (String × Value)}
      (keys : entries.map (·.1.text?) = pairs.map fun pair => .some pair.1)
      (values : List.Forall₂ Means (entries.map Prod.snd) (pairs.map Prod.snd)) :
      Means (.map hint entries) (.map (.latest pairs))

/--
The error is about the first token that is refused. Everything before it can be read, an announced
number coming before what is counted and an entry's key before its value, and what is behind it does not
matter.
-/
inductive Refused (room : Room) : Token → DecodeError → Prop where
  | value {token : Token} {found : Found} (h : token.isForeign = true)
      (hfound : token.found? = .some found) : Refused room token (.notValue found)
  | length {token : Token} {n : Nat} (h : ¬token.Fits room) (hn : token.hint? = .some n) :
      Refused room token (.noRoom n)
  | some {token : Token} {e : DecodeError} (h : Refused room token e) : Refused room (.some token) e
  | item {hint : Option Nat} {before rest : List Token} {token : Token} {e : DecodeError}
      (hfits : ∀ n ∈ hint, room.items n = true) (hbefore : ∀ token ∈ before, token.Readable room)
      (h : Refused room token e) : Refused room (.seq hint (before ++ token :: rest)) e
  | key {hint : Option Nat} {before rest : List (Token × Token)} {name token : Token}
      {e : DecodeError} (hfits : ∀ n ∈ hint, room.entries n = true)
      (hbefore : ∀ entry ∈ before, entry.1.text?.isSome = true ∧ entry.2.Readable room)
      (hname : name.text? = .none) (h : name.keyError? = .some e) :
      Refused room (.map hint (before ++ (name, token) :: rest)) e
  | entry {hint : Option Nat} {before rest : List (Token × Token)} {name token : Token}
      {e : DecodeError} (hfits : ∀ n ∈ hint, room.entries n = true)
      (hbefore : ∀ entry ∈ before, entry.1.text?.isSome = true ∧ entry.2.Readable room)
      (hname : name.text?.isSome = true) (h : Refused room token e) :
      Refused room (.map hint (before ++ (name, token) :: rest)) e

section Readable

variable {room : Room} {token : Token} {hint : Option Nat} {items : List Token}
  {entries : List (Token × Token)}

theorem Within.trans {inner mid outer : Token} (h : Within inner mid) (hmid : Within mid outer) :
    Within inner outer := by
  induction hmid with
  | self => exact h
  | some _ ih => exact .some ih
  | item hmem _ ih => exact .item hmem ih
  | entry hmem _ ih => exact .entry hmem ih

theorem Readable.of_within {inner : Token} (h : token.Readable room) (hinner : Within inner token) :
    inner.Readable room := by
  constructor
  case values =>
    intro other hother
    exact h.values other (hother.trans hinner)
  case keys =>
    intro hint entries hother
    exact h.keys hint entries (hother.trans hinner)
  case lengths =>
    intro other hother
    exact h.lengths other (hother.trans hinner)

theorem readable_of_isScalar (h : token.isScalar = true) : token.Readable room := by
  cases token with
  | some | newtype | signed128 | unsigned128 | bytes | enum | seq | map => cases h
  | unit | none | boolean | signed | unsigned | binary32 | binary64 | char | string =>
    constructor
    case values =>
      rintro inner ⟨⟩
      rfl
    case keys => rintro hint entries ⟨⟩
    case lengths =>
      rintro inner ⟨⟩
      trivial

theorem readable_some_iff : (Token.some token).Readable room ↔ token.Readable room := by
  constructor
  . intro h
    exact h.of_within (.some .self)
  . intro h
    constructor
    case values =>
      rintro inner (_ | hinner)
      . rfl
      . exact h.values inner hinner
    case keys =>
      rintro hint entries (_ | hinner)
      exact h.keys hint entries hinner
    case lengths =>
      rintro inner (_ | hinner)
      . trivial
      . exact h.lengths inner hinner

theorem readable_seq_iff :
    (Token.seq hint items).Readable room
      ↔ (∀ n ∈ hint, room.items n = true) ∧ ∀ token ∈ items, token.Readable room := by
  constructor
  . intro h
    refine ⟨h.lengths _ .self, ?_⟩
    intro token hmem
    exact h.of_within (.item hmem .self)
  . rintro ⟨hfits, h⟩
    constructor
    case values =>
      rintro inner (_ | _ | ⟨hmem, hinner⟩)
      . rfl
      . exact (h _ hmem).values inner hinner
    case keys =>
      rintro hint entries (_ | _ | ⟨hmem, hinner⟩)
      exact (h _ hmem).keys hint entries hinner
    case lengths =>
      rintro inner (_ | _ | ⟨hmem, hinner⟩)
      . exact hfits
      . exact (h _ hmem).lengths inner hinner

theorem readable_map_iff :
    (Token.map hint entries).Readable room
      ↔ (∀ n ∈ hint, room.entries n = true)
        ∧ ∀ entry ∈ entries, entry.1.text?.isSome = true ∧ entry.2.Readable room := by
  constructor
  . intro h
    refine ⟨h.lengths _ .self, ?_⟩
    intro entry hmem
    exact ⟨h.keys hint entries .self entry hmem, h.of_within (.entry hmem .self)⟩
  . rintro ⟨hfits, h⟩
    constructor
    case values =>
      rintro inner (_ | _ | _ | ⟨hmem, hinner⟩)
      . rfl
      . exact (h _ hmem).2.values inner hinner
    case keys =>
      rintro hint others (_ | _ | _ | ⟨hmem, hinner⟩)
      . intro entry hmem
        exact (h entry hmem).1
      . exact (h _ hmem).2.keys hint others hinner
    case lengths =>
      rintro inner (_ | _ | _ | ⟨hmem, hinner⟩)
      . exact hfits
      . exact (h _ hmem).2.lengths inner hinner

end Readable

section Decode

variable {room : Room} {token : Token} {value : Value} {name : String} {e : DecodeError}
  {hint : Option Nat} {items : List Token} {values : List Value} {entries : List (Token × Token)}
  {pairs : List (String × Value)}

theorem reserve_eq_ok_iff {fits : Nat → Bool} :
    reserve fits hint = .ok () ↔ ∀ n ∈ hint, fits n = true := by
  cases hint with
  | none => simp [reserve]
  | some n => cases h : fits n <;> simp [reserve, h]

theorem reserve_eq_error_iff {fits : Nat → Bool} :
    reserve fits hint = .error e
      ↔ (¬∀ n ∈ hint, fits n = true) ∧ ∃ n, hint = .some n ∧ .noRoom n = e := by
  cases hint with
  | none => simp [reserve]
  | some n => cases h : fits n <;> simp [reserve, h]

theorem reserve_bind_eq_ok_iff {α : Type} {fits : Nat → Bool} {x : Unit → Except DecodeError α}
    {a : α} :
    (reserve fits hint >>= x) = .ok a ↔ (∀ n ∈ hint, fits n = true) ∧ x () = .ok a := by
  rw [bind_eq_ok_iff, ← reserve_eq_ok_iff]
  constructor
  . rintro ⟨⟨⟩, h⟩
    exact h
  . intro h
    exact ⟨(), h⟩

theorem reserve_bind_eq_error_iff {α : Type} {fits : Nat → Bool} {x : Unit → Except DecodeError α} :
    (reserve fits hint >>= x) = .error e
      ↔ reserve fits hint = .error e ∨ (∀ n ∈ hint, fits n = true) ∧ x () = .error e := by
  rw [bind_eq_error_iff, ← reserve_eq_ok_iff]
  constructor
  . rintro (h | ⟨⟨⟩, h⟩)
    . exact .inl h
    . exact .inr h
  . rintro (h | h)
    . exact .inl h
    . exact .inr ⟨(), h⟩

theorem key_eq_ok_iff : token.key = .ok name ↔ token.text? = .some name := by
  cases token with
  | bytes b => cases h : String.fromUTF8? b <;> simp [key, text?, h]
  | _ => simp [key, text?]

theorem key_eq_error_iff :
    token.key = .error e ↔ token.text? = .none ∧ token.keyError? = .some e := by
  cases token with
  | bytes b => cases h : String.fromUTF8? b <;> simp [key, text?, keyError?, h]
  | _ => simp [key, text?, found?, keyError?]

theorem decode_seq_eq_ok_iff :
    (Token.seq hint items).decode room = .ok value
      ↔ (∀ n ∈ hint, room.items n = true)
        ∧ ∃ values, decodeItems room items = .ok values ∧ .list values = value := by
  rw [decode, reserve_bind_eq_ok_iff, bind_eq_ok_iff]
  simp only [pure, Except.pure, Except.ok.injEq]

theorem decode_seq_eq_error_iff :
    (Token.seq hint items).decode room = .error e
      ↔ reserve room.items hint = .error e
        ∨ (∀ n ∈ hint, room.items n = true) ∧ decodeItems room items = .error e := by
  rw [decode, reserve_bind_eq_error_iff, bind_eq_error_iff]
  simp [pure, Except.pure]

theorem decode_map_eq_ok_iff :
    (Token.map hint entries).decode room = .ok value
      ↔ (∀ n ∈ hint, room.entries n = true)
        ∧ ∃ pairs, decodeEntries room entries = .ok pairs ∧ .map (.latest pairs) = value := by
  rw [decode, reserve_bind_eq_ok_iff, bind_eq_ok_iff]
  simp only [pure, Except.pure, Except.ok.injEq, Entries.ofList_eq_latest]

theorem decode_map_eq_error_iff :
    (Token.map hint entries).decode room = .error e
      ↔ reserve room.entries hint = .error e
        ∨ (∀ n ∈ hint, room.entries n = true) ∧ decodeEntries room entries = .error e := by
  rw [decode, reserve_bind_eq_error_iff, bind_eq_error_iff]
  simp [pure, Except.pure]

theorem decodeItems_cons_eq_ok_iff :
    decodeItems room (token :: items) = .ok values
      ↔ ∃ first rest, token.decode room = .ok first ∧ decodeItems room items = .ok rest
          ∧ values = first :: rest := by
  rw [decodeItems, bind_eq_ok_iff]
  simp only [bind_eq_ok_iff, pure, Except.pure, Except.ok.injEq, exists_and_left,
    eq_comm (a := values)]

theorem decodeItems_cons_eq_error_iff :
    decodeItems room (token :: items) = .error e
      ↔ token.decode room = .error e
        ∨ (∃ value, token.decode room = .ok value) ∧ decodeItems room items = .error e := by
  rw [decodeItems, bind_eq_error_iff]
  simp [bind_eq_error_iff, pure, Except.pure]

theorem decodeEntries_cons_eq_ok_iff {entry : Token × Token} :
    decodeEntries room (entry :: entries) = .ok pairs
      ↔ ∃ name value rest, entry.1.text? = .some name ∧ entry.2.decode room = .ok value
          ∧ decodeEntries room entries = .ok rest ∧ (name, value) :: rest = pairs := by
  rcases entry with ⟨key, token⟩
  rw [decodeEntries, bind_eq_ok_iff]
  simp only [bind_eq_ok_iff, key_eq_ok_iff, pure, Except.pure, Except.ok.injEq, exists_and_left]

theorem decodeEntries_cons_eq_error_iff {entry : Token × Token} :
    decodeEntries room (entry :: entries) = .error e
      ↔ entry.1.key = .error e
        ∨ entry.1.text?.isSome = true
          ∧ (entry.2.decode room = .error e
            ∨ (∃ value, entry.2.decode room = .ok value)
              ∧ decodeEntries room entries = .error e) := by
  rcases entry with ⟨key, token⟩
  rw [decodeEntries, bind_eq_error_iff]
  simp [bind_eq_error_iff, key_eq_ok_iff, pure, Except.pure, Option.isSome_iff_exists]

theorem decodeItems_eq_ok_iff
    (h : ∀ token ∈ items, ∀ value,
      token.decode room = .ok value ↔ token.Readable room ∧ token.Means value) :
    decodeItems room items = .ok values
      ↔ (∀ token ∈ items, token.Readable room) ∧ List.Forall₂ Means items values := by
  induction items generalizing values with
  | nil => simp [decodeItems, eq_comm]
  | cons token rest ih =>
    rw [List.forall_mem_cons] at h
    simp only [decodeItems_cons_eq_ok_iff, List.forall₂_cons_left_iff, h.1, ih h.2,
      List.forall_mem_cons]
    constructor
    . rintro ⟨first, others, ⟨hfirst, hmeans⟩, ⟨hrest, hothers⟩, rfl⟩
      exact ⟨⟨hfirst, hrest⟩, first, others, hmeans, hothers, rfl⟩
    . rintro ⟨⟨hfirst, hrest⟩, first, others, hmeans, hothers, rfl⟩
      exact ⟨first, others, ⟨hfirst, hmeans⟩, ⟨hrest, hothers⟩, rfl⟩

theorem decodeEntries_eq_ok_iff
    (h : ∀ entry ∈ entries, ∀ value,
      entry.2.decode room = .ok value ↔ entry.2.Readable room ∧ entry.2.Means value) :
    decodeEntries room entries = .ok pairs
      ↔ (∀ entry ∈ entries, entry.1.text?.isSome = true ∧ entry.2.Readable room)
        ∧ entries.map (·.1.text?) = pairs.map (fun pair => .some pair.1)
        ∧ List.Forall₂ Means (entries.map Prod.snd) (pairs.map Prod.snd) := by
  induction entries generalizing pairs with
  | nil => cases pairs <;> simp [decodeEntries]
  | cons entry rest ih =>
    rw [List.forall_mem_cons] at h
    simp only [decodeEntries_cons_eq_ok_iff, h.1, ih h.2, List.forall_mem_cons]
    constructor
    . rintro ⟨name, value, others, hname, ⟨hread, hvalue⟩, ⟨hrest, hkeys, hvalues⟩, rfl⟩
      simp only [List.map_cons, hname, hkeys, List.forall₂_cons]
      exact ⟨⟨⟨rfl, hread⟩, hrest⟩, trivial, hvalue, hvalues⟩
    . rintro ⟨⟨⟨_, hread⟩, hrest⟩, hkeys, hvalues⟩
      cases pairs with
      | nil => cases hkeys
      | cons pair others =>
        simp only [List.map_cons, List.cons.injEq, List.forall₂_cons] at hkeys hvalues
        exact ⟨_, _, others, hkeys.1, ⟨hread, hvalues.1⟩, ⟨hrest, hkeys.2, hvalues.2⟩, rfl⟩

theorem means_unsigned_iff {n : UInt64} :
    (Token.unsigned n).Means value ↔ value = ofUnsigned n := by
  have hmax : Int64.maxValue.toInt = 2 ^ 63 - 1 := Int64.toInt_maxValue
  have hbound : (1 <<< 63 : Nat) = 2 ^ 63 := rfl
  unfold ofUnsigned
  rw [hbound]
  split
  . next hsmall =>
    have hn := Int64.toInt_ofNat_of_lt hsmall
    constructor
    . intro h
      cases h with
      | unsigned hm =>
        rw [← hn, Int64.toInt_inj] at hm
        rw [hm]
      | large hlarge => omega
    . rintro rfl
      exact .unsigned hn
  . next hlarge =>
    have hlog : n.toNat.log2 < 64 := (Nat.log2_lt (by omega)).mpr n.toNat_lt
    have hnearest := Binary64.isNearest_ofNat (Nat.lt_trans hlog (by omega))
    constructor
    . intro h
      cases h with
      | @unsigned _ m hm =>
        have := m.toInt_lt
        omega
      | large _ hx => rw [hx.eq hnearest]
    . rintro rfl
      exact .large (by omega) hnearest

theorem means_binary32_iff {word : UInt32} :
    (Token.binary32 word).Means value ↔ value = .float (.ofBinary32 word) := by
  have hwidens := Binary64.widens_ofBinary32 word
  constructor
  . rintro ⟨⟩
    next hx => rw [hx.eq hwidens]
  . rintro rfl
    exact .binary32 hwidens

/--
Decoding gives a value exactly when the token tree can be read and stands for it.
-/
theorem decode_eq_ok_iff (token : Token) (value : Value) :
    token.decode room = .ok value ↔ token.Readable room ∧ token.Means value := by
  induction token using inductionOn generalizing value with
  | unit | none | boolean | signed | binary64 | char | string =>
    constructor
    . rintro ⟨⟩
      refine ⟨readable_of_isScalar rfl, ?_⟩
      constructor
    . rintro ⟨_, ⟨⟩⟩
      rfl
  | newtype | signed128 | unsigned128 | bytes | enum =>
    constructor
    . rintro ⟨⟩
    . rintro ⟨_, ⟨⟩⟩
  | unsigned n =>
    rw [means_unsigned_iff, decode, Except.ok.injEq, eq_comm, and_iff_right]
    exact readable_of_isScalar rfl
  | binary32 word =>
    rw [means_binary32_iff, decode, Except.ok.injEq, eq_comm, and_iff_right]
    exact readable_of_isScalar rfl
  | some token ih =>
    rw [readable_some_iff]
    constructor
    . intro h
      rcases (ih value).mp h with ⟨hread, hmeans⟩
      exact ⟨hread, .some hmeans⟩
    . rintro ⟨hread, ⟨⟩⟩
      next hmeans => exact (ih value).mpr ⟨hread, hmeans⟩
  | seq hint items ih =>
    rw [decode_seq_eq_ok_iff, readable_seq_iff]
    constructor
    . rintro ⟨hfits, values, hvalues, rfl⟩
      rcases (decodeItems_eq_ok_iff ih).mp hvalues with ⟨hread, hmeans⟩
      exact ⟨⟨hfits, hread⟩, .seq hmeans⟩
    . rintro ⟨⟨hfits, hread⟩, ⟨⟩⟩
      next values hmeans =>
        exact ⟨hfits, values, (decodeItems_eq_ok_iff ih).mpr ⟨hread, hmeans⟩, rfl⟩
  | map hint entries ih =>
    rw [decode_map_eq_ok_iff, readable_map_iff]
    constructor
    . rintro ⟨hfits, pairs, hpairs, rfl⟩
      rcases (decodeEntries_eq_ok_iff ih).mp hpairs with ⟨hread, hkeys, hvalues⟩
      exact ⟨⟨hfits, hread⟩, .map hkeys hvalues⟩
    . rintro ⟨⟨hfits, hread⟩, ⟨⟩⟩
      next pairs hkeys hvalues =>
        have hpairs := (decodeEntries_eq_ok_iff ih).mpr ⟨hread, hkeys, hvalues⟩
        exact ⟨hfits, pairs, hpairs, rfl⟩

theorem exists_decodeItems_eq_ok_iff :
    (∃ values, decodeItems room items = .ok values)
      ↔ ∀ token ∈ items, ∃ value, token.decode room = .ok value := by
  induction items with
  | nil => simp [decodeItems]
  | cons token rest ih =>
    rw [List.forall_mem_cons, ← ih]
    simp [decodeItems_cons_eq_ok_iff]

theorem exists_decodeEntries_eq_ok_iff :
    (∃ pairs, decodeEntries room entries = .ok pairs)
      ↔ ∀ entry ∈ entries,
          entry.1.text?.isSome = true ∧ ∃ value, entry.2.decode room = .ok value := by
  induction entries with
  | nil => simp [decodeEntries]
  | cons entry rest ih =>
    rw [List.forall_mem_cons, ← ih]
    simp [decodeEntries_cons_eq_ok_iff, Option.isSome_iff_exists, and_assoc]

theorem readable_iff (token : Token) :
    token.Readable room ↔ ∃ value, token.decode room = .ok value := by
  induction token using inductionOn with
  | unit | none | boolean | signed | unsigned | binary32 | binary64 | char | string =>
    exact ⟨fun _ => ⟨_, rfl⟩, fun _ => readable_of_isScalar rfl⟩
  | newtype | signed128 | unsigned128 | bytes | enum =>
    constructor
    . intro h
      cases h.values _ .self
    . rintro ⟨value, ⟨⟩⟩
  | some token ih =>
    rw [readable_some_iff]
    exact ih
  | seq hint items ih =>
    calc
      _ ↔ _ ∧ ∀ token ∈ items, token.Readable room := readable_seq_iff
      _ ↔ _ ∧ ∀ token ∈ items, ∃ value, token.decode room = .ok value :=
        and_congr_right' (forall₂_congr ih)
      _ ↔ _ ∧ ∃ values, decodeItems room items = .ok values :=
        and_congr_right' exists_decodeItems_eq_ok_iff.symm
      _ ↔ _ := by simp [decode_seq_eq_ok_iff]
  | map hint entries ih =>
    calc
      _ ↔ _ ∧ ∀ entry ∈ entries, entry.1.text?.isSome = true ∧ entry.2.Readable room :=
        readable_map_iff
      _ ↔ _ ∧ ∀ entry ∈ entries,
            entry.1.text?.isSome = true ∧ ∃ value, entry.2.decode room = .ok value :=
        and_congr_right' (forall₂_congr fun entry hmem => and_congr_right' (ih entry hmem))
      _ ↔ _ ∧ ∃ pairs, decodeEntries room entries = .ok pairs :=
        and_congr_right' exists_decodeEntries_eq_ok_iff.symm
      _ ↔ _ := by simp [decode_map_eq_ok_iff]

theorem decodeItems_eq_error_iff :
    decodeItems room items = .error e
      ↔ ∃ before token rest, items = before ++ token :: rest
          ∧ (∀ token ∈ before, token.Readable room) ∧ token.decode room = .error e := by
  induction items with
  | nil => simp [decodeItems]
  | cons token rest ih =>
    rw [decodeItems_cons_eq_error_iff, ih, ← readable_iff]
    constructor
    . rintro (h | ⟨htoken, before, other, behind, rfl, hbefore, h⟩)
      . exact ⟨[], token, rest, rfl, by simp, h⟩
      . exact ⟨token :: before, other, behind, rfl, List.forall_mem_cons.mpr ⟨htoken, hbefore⟩, h⟩
    . rintro ⟨_ | ⟨first, before⟩, other, behind, heq, hbefore, h⟩
      . cases heq
        exact .inl h
      . cases heq
        rw [List.forall_mem_cons] at hbefore
        exact .inr ⟨hbefore.1, before, other, behind, rfl, hbefore.2, h⟩

theorem decodeEntries_eq_error_iff :
    decodeEntries room entries = .error e
      ↔ ∃ before entry rest, entries = before ++ entry :: rest
          ∧ (∀ entry ∈ before, entry.1.text?.isSome = true ∧ entry.2.Readable room)
          ∧ (entry.1.key = .error e
            ∨ entry.1.text?.isSome = true ∧ entry.2.decode room = .error e) := by
  induction entries with
  | nil => simp [decodeEntries]
  | cons entry rest ih =>
    rw [decodeEntries_cons_eq_error_iff, ih, ← readable_iff]
    constructor
    . rintro (h | ⟨hname, h | ⟨htoken, before, other, behind, rfl, hbefore, h⟩⟩)
      . exact ⟨[], entry, rest, rfl, by simp, .inl h⟩
      . exact ⟨[], entry, rest, rfl, by simp, .inr ⟨hname, h⟩⟩
      . refine ⟨entry :: before, other, behind, rfl, ?_, h⟩
        exact List.forall_mem_cons.mpr ⟨⟨hname, htoken⟩, hbefore⟩
    . rintro ⟨_ | ⟨first, before⟩, other, behind, heq, hbefore, h⟩
      . cases heq
        rcases h with h | ⟨hname, h⟩
        . exact .inl h
        . exact .inr ⟨hname, .inl h⟩
      . cases heq
        rw [List.forall_mem_cons] at hbefore
        exact .inr ⟨hbefore.1.1, .inr ⟨hbefore.1.2, before, other, behind, rfl, hbefore.2, h⟩⟩

/--
Decoding fails with an error exactly when it is about the first token that is refused.
-/
theorem decode_eq_error_iff (token : Token) (e : DecodeError) :
    token.decode room = .error e ↔ token.Refused room e := by
  induction token using inductionOn generalizing e with
  | unit | none | boolean | signed | unsigned | binary32 | binary64 | char | string =>
    constructor
    . rintro ⟨⟩
    . rintro (⟨⟨⟩, _⟩ | ⟨_, ⟨⟩⟩)
  | newtype | signed128 | unsigned128 | bytes | enum =>
    constructor
    . rintro ⟨⟩
      exact .value rfl rfl
    . rintro (⟨_, ⟨⟩⟩ | ⟨_, ⟨⟩⟩)
      rfl
  | some token ih =>
    constructor
    . intro h
      exact .some ((ih e).mp h)
    . intro h
      cases h with
      | value hforeign => cases hforeign
      | length _ hn => cases hn
      | some h => exact (ih e).mpr h
  | seq hint items ih =>
    rw [decode_seq_eq_error_iff, reserve_eq_error_iff, decodeItems_eq_error_iff]
    constructor
    . rintro (⟨h, n, hn, rfl⟩ | ⟨hfits, before, token, rest, rfl, hbefore, h⟩)
      . exact .length h hn
      . exact .item hfits hbefore ((ih token (by simp) e).mp h)
    . intro h
      cases h with
      | value hforeign => cases hforeign
      | length h hn => exact .inl ⟨h, _, hn, rfl⟩
      | @item _ before rest token _ hfits hbefore h =>
        exact .inr ⟨hfits, before, token, rest, rfl, hbefore, (ih token (by simp) e).mpr h⟩
  | map hint entries ih =>
    rw [decode_map_eq_error_iff, reserve_eq_error_iff, decodeEntries_eq_error_iff]
    constructor
    . rintro (⟨h, n, hn, rfl⟩ | ⟨hfits, before, ⟨name, token⟩, rest, rfl, hbefore, h | ⟨hname, h⟩⟩)
      . exact .length h hn
      . rcases key_eq_error_iff.mp h with ⟨hname, hkey⟩
        exact .key hfits hbefore hname hkey
      . exact .entry hfits hbefore hname ((ih (name, token) (by simp) e).mp h)
    . intro h
      cases h with
      | value hforeign => cases hforeign
      | length h hn => exact .inl ⟨h, _, hn, rfl⟩
      | @key _ before rest name token _ hfits hbefore hname hkey =>
        have h := key_eq_error_iff.mpr ⟨hname, hkey⟩
        exact .inr ⟨hfits, before, (name, token), rest, rfl, hbefore, .inl h⟩
      | @entry _ before rest name token _ hfits hbefore hname h =>
        have htoken := (ih (name, token) (by simp) e).mpr h
        exact .inr ⟨hfits, before, (name, token), rest, rfl, hbefore, .inr ⟨hname, htoken⟩⟩

/--
Decoding accepts exactly the token trees that can be read and gives the value for which the tree stands.
Of any other tree the error is about the first token that is refused.
-/
theorem decode_eq_iff (room : Room) (token : Token) :
    (token.Readable room ↔ ∃ value, token.decode room = .ok value)
      ∧ (∀ value, token.decode room = .ok value ↔ token.Readable room ∧ token.Means value)
      ∧ ∀ e, token.decode room = .error e ↔ token.Refused room e :=
  ⟨readable_iff token, decode_eq_ok_iff token, decode_eq_error_iff token⟩

/-- The key of the second entry is refused before its value and before the third entry. -/
example :
    (Token.map .none [(.bytes "a", .some (.unsigned 7)), (.boolean true, .bytes "b"),
        (.char 'c', .newtype .unit)]).decode
      = .error (.notKey (.boolean true)) := rfl

/--
The token is of a kind that is never a value, an enum left aside.
-/
def isRaw : Token → Bool
  | .newtype _ | .signed128 _ | .unsigned128 _ | .bytes _ => true
  | _ => false

/--
The token is of a kind that can be a text.
-/
def isTextual : Token → Bool
  | .string _ | .bytes _ | .char _ => true
  | _ => false

/--
The kinds of the tokens let the tree be read, whatever the tokens hold and announce.
-/
structure ReadableByKind (token : Token) : Prop where
  values : ∀ inner, Within inner token → inner.isRaw = false
  keys : ∀ hint entries, Within (.map hint entries) token →
    ∀ entry ∈ entries, entry.1.isTextual = true

/--
An enum.
-/
def red : Token := .enum (.string "red") .unit

/--
A map with a key of one byte that is no UTF-8.
-/
def unlabelled : Token := .map .none [(.bytes ⟨#[255]⟩, .unit)]

/--
A list that announces more than a memory of 63 bits holds.
-/
def boundless : Token := .seq (.some (2 ^ 63)) []

/--
The kinds do not decide it. An enum is refused, and so are a key whose bytes are no UTF-8 and an
announced number of items for which there is no room.
-/
theorem refused_of_readableByKind :
    (red.ReadableByKind ∧ red.decode = .error (.notValue .enum))
      ∧ (unlabelled.ReadableByKind ∧ unlabelled.decode = .error .notText)
      ∧ boundless.ReadableByKind
        ∧ boundless.decode ⟨fun n => n < 2 ^ 63, fun n => n < 2 ^ 63⟩
          = .error (.noRoom (2 ^ 63)) := by
  refine ⟨⟨?_, rfl⟩, ⟨?_, rfl⟩, ?_, rfl⟩
  . constructor
    case values =>
      rintro inner ⟨⟩
      rfl
    case keys => rintro hint entries ⟨⟩
  . constructor
    case values =>
      rintro inner (_ | _ | _ | ⟨hmem, hinner⟩)
      . rfl
      . cases List.mem_singleton.mp hmem
        cases hinner
        rfl
    case keys =>
      rintro hint entries (_ | _ | _ | ⟨hmem, hinner⟩)
      . intro entry hmem
        cases List.mem_singleton.mp hmem
        rfl
      . cases List.mem_singleton.mp hmem
        cases hinner
  . constructor
    case values =>
      rintro inner (_ | _ | ⟨⟨⟩, _⟩)
      rfl
    case keys => rintro hint entries (_ | _ | ⟨⟨⟩, _⟩)

end Decode

end Token

end ContentModel
