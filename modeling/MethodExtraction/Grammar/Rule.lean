import MethodExtraction.Grammar.Regex

namespace MethodExtraction.Grammar

inductive Assoc where
  | left
  | right
  deriving DecidableEq, Hashable, Inhabited, Repr

inductive Rule (σ κ φ : Type) where
  | blank
  | symbol (s : σ)
  | seq (a b : Rule σ κ φ)
  | choice (a b : Rule σ κ φ)
  | repeat1 (a : Rule σ κ φ)
  | field (name : φ) (a : Rule σ κ φ)
  | rename (kind : κ) (a : Rule σ κ φ)
  | prec (level : Int) (assoc : Option Assoc) (a : Rule σ κ φ)
  | dynamic (level : Int) (a : Rule σ κ φ)
  deriving DecidableEq, Inhabited, Repr

namespace Rule

variable {σ κ φ : Type}

def seqs : List (Rule σ κ φ) → Rule σ κ φ
  | [] => blank
  | [a] => a
  | a :: as => seq a (seqs as)

def choices : List (Rule σ κ φ) → Rule σ κ φ
  | [] => blank
  | [a] => a
  | a :: as => choice a (choices as)

def optional (a : Rule σ κ φ) : Rule σ κ φ := choice a blank

def many (a : Rule σ κ φ) : Rule σ κ φ := choice (repeat1 a) blank

def sepBy1 (a sep : Rule σ κ φ) : Rule σ κ φ := seq a (many (seq sep a))

def sepBy (a sep : Rule σ κ φ) : Rule σ κ φ := optional (sepBy1 a sep)

def map {σ' κ' φ' : Type} (f : σ → σ') (g : κ → κ') (h : φ → φ') : Rule σ κ φ → Rule σ' κ' φ'
  | blank => blank
  | symbol s => symbol (f s)
  | seq a b => seq (a.map f g h) (b.map f g h)
  | choice a b => choice (a.map f g h) (b.map f g h)
  | repeat1 a => repeat1 (a.map f g h)
  | field n a => field (h n) (a.map f g h)
  | rename k a => rename (g k) (a.map f g h)
  | prec l c a => prec l c (a.map f g h)
  | dynamic l a => dynamic l (a.map f g h)

end Rule

structure Part (κ φ : Type) where
  kind : κ
  field : Option φ
  deriving DecidableEq, Inhabited, Repr

/-- How a symbol shows: as a node of a kind, or as the parts of a rule. -/
inductive View (σ κ φ : Type) where
  | node (kind : κ)
  | unfold (rule : Rule σ κ φ)

variable {σ κ φ : Type}

/-- The shape of the children that a rule allows, inside the field and the new kind of its context.
A hidden construct has the shape that `inner` gives to its rule. -/
def Rule.shapeWith (view : σ → View σ κ φ) (inner : Option φ → Rule σ κ φ → Regex (Part κ φ)) :
    Option φ → Option κ → Rule σ κ φ → Regex (Part κ φ)
  | _, _, .blank => .empty
  | f, some k, .symbol _ => .atom ⟨k, f⟩
  | f, none, .symbol s =>
    match view s with
    | .node k => .atom ⟨k, f⟩
    | .unfold rule => inner f rule
  | f, k, .seq a b => .seq (a.shapeWith view inner f k) (b.shapeWith view inner f k)
  | f, k, .choice a b => .alt (a.shapeWith view inner f k) (b.shapeWith view inner f k)
  | f, k, .repeat1 a => (a.shapeWith view inner f k).plus
  | _, k, .field n a => a.shapeWith view inner (some n) k
  | f, _, .rename k a => a.shapeWith view inner f (some k)
  | f, k, .prec _ _ a => a.shapeWith view inner f k
  | f, k, .dynamic _ a => a.shapeWith view inner f k

/-- The shape of a rule, with hidden constructs unfolded `depth` times. That is enough where no
hidden construct contains itself through hidden ones alone. -/
def Rule.shapeIn (view : σ → View σ κ φ) : Nat → Option φ → Rule σ κ φ → Regex (Part κ φ)
  | 0, f => Rule.shapeWith view (fun _ _ => .never) f none
  | depth + 1, f => Rule.shapeWith view (Rule.shapeIn view depth) f none

end MethodExtraction.Grammar
