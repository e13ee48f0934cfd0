import Std.Data.ExtTreeSet

/-!
# Symbols and productions

The vocabulary of a grammar in Chomsky normal form. A *symbol* is a text with a tag: the tag alone
tells a nonterminal from a terminal, so `a` the terminal and `a` the nonterminal are different
symbols. A *production* is a right-hand side: two nonterminals, or one terminal.

Both types carry the linear order in which they are listed: terminals before nonterminals, pairs
before terminals, and texts of one kind by code point. The order is a `Std.TransOrd` whose only
equal elements are identical, so finite sets of symbols, forms and productions are determined by
their elements.
-/

namespace Chomsky

/-- One position of a sentential form. -/
inductive Symbol where
  | terminal (text : String)
  | nonterminal (name : String)
  deriving DecidableEq, Repr, Inhabited

/-- A right-hand side in Chomsky normal form. -/
inductive Production where
  | binary (left right : String)
  | unary (text : String)
  deriving DecidableEq, Repr, Inhabited

/-- A set of names or of tokens. -/
abbrev NameSet := Std.ExtTreeSet String

abbrev Sentence := List String

abbrev Language := Std.ExtTreeSet Sentence

/-! ## Order -/

/-- Every terminal stands before every nonterminal. -/
def Symbol.order : Symbol → Symbol → Ordering
  | .terminal a, .terminal b => compare a b
  | .terminal _, .nonterminal _ => .lt
  | .nonterminal _, .terminal _ => .gt
  | .nonterminal a, .nonterminal b => compare a b

instance : Ord Symbol := ⟨Symbol.order⟩

instance : Std.TransOrd Symbol where
  eq_swap {a b} := match a, b with
    | .terminal _, .terminal _ => Std.OrientedOrd.eq_swap (α := String)
    | .terminal _, .nonterminal _ => rfl
    | .nonterminal _, .terminal _ => rfl
    | .nonterminal _, .nonterminal _ => Std.OrientedOrd.eq_swap (α := String)
  isLE_trans {a b c} := match a, b, c with
    | .terminal _, .terminal _, .terminal _ => Std.TransOrd.isLE_trans (α := String)
    | .nonterminal _, .nonterminal _, .nonterminal _ => Std.TransOrd.isLE_trans (α := String)
    | .terminal _, _, .nonterminal _ => fun _ _ => rfl
    | .nonterminal _, .terminal _, _ => fun h _ => nomatch h
    | _, .nonterminal _, .terminal _ => fun _ h => nomatch h

instance : Std.LawfulEqOrd Symbol where
  compare_self {a} := match a with
    | .terminal _ => Std.ReflOrd.compare_self (α := String)
    | .nonterminal _ => Std.ReflOrd.compare_self (α := String)
  eq_of_compare {a b} := match a, b with
    | .terminal _, .terminal _ => fun h =>
      congrArg _ (Std.LawfulEqOrd.eq_of_compare (α := String) h)
    | .nonterminal _, .nonterminal _ => fun h =>
      congrArg _ (Std.LawfulEqOrd.eq_of_compare (α := String) h)
    | .terminal _, .nonterminal _ => fun h => nomatch h
    | .nonterminal _, .terminal _ => fun h => nomatch h

/-- Every pair stands before every terminal; pairs go by the left name, then by the right one. -/
def Production.order : Production → Production → Ordering
  | .binary a b, .binary c d => compare [a, b] [c, d]
  | .binary _ _, .unary _ => .lt
  | .unary _, .binary _ _ => .gt
  | .unary a, .unary b => compare a b

instance : Ord Production := ⟨Production.order⟩

instance : Std.TransOrd Production where
  eq_swap {a b} := match a, b with
    | .binary _ _, .binary _ _ => Std.OrientedOrd.eq_swap (α := List String)
    | .binary _ _, .unary _ => rfl
    | .unary _, .binary _ _ => rfl
    | .unary _, .unary _ => Std.OrientedOrd.eq_swap (α := String)
  isLE_trans {a b c} := match a, b, c with
    | .binary _ _, .binary _ _, .binary _ _ => Std.TransOrd.isLE_trans (α := List String)
    | .unary _, .unary _, .unary _ => Std.TransOrd.isLE_trans (α := String)
    | .binary _ _, _, .unary _ => fun _ _ => rfl
    | .unary _, .binary _ _, _ => fun h _ => nomatch h
    | _, .unary _, .binary _ _ => fun _ h => nomatch h

instance : Std.LawfulEqOrd Production where
  compare_self {a} := match a with
    | .binary _ _ => Std.ReflOrd.compare_self (α := List String)
    | .unary _ => Std.ReflOrd.compare_self (α := String)
  eq_of_compare {a b} := match a, b with
    | .binary _ _, .binary _ _ => fun h => by
      have h := Std.LawfulEqOrd.eq_of_compare (α := List String) h
      simp_all
    | .unary _, .unary _ => fun h =>
      congrArg _ (Std.LawfulEqOrd.eq_of_compare (α := String) h)
    | .binary _ _, .unary _ => fun h => nomatch h
    | .unary _, .binary _ _ => fun h => nomatch h

abbrev Productions := Std.ExtTreeSet Production

/-! ## Parts -/

namespace Symbol

/-- The text of a symbol, whatever its tag. -/
def text : Symbol → String
  | terminal t => t
  | nonterminal n => n

end Symbol

namespace Production

/-- What a name is replaced by. -/
def symbols : Production → List Symbol
  | binary l r => [.nonterminal l, .nonterminal r]
  | unary t => [.terminal t]

def names : Production → List String
  | binary l r => [l, r]
  | unary _ => []

def tokens : Production → List String
  | binary _ _ => []
  | unary t => [t]

@[simp] theorem symbols_binary (l r : String) :
    (binary l r).symbols = [.nonterminal l, .nonterminal r] := rfl

@[simp] theorem symbols_unary (t : String) : (unary t).symbols = [.terminal t] := rfl

@[simp] theorem names_binary (l r : String) : (binary l r).names = [l, r] := rfl

@[simp] theorem names_unary (t : String) : (unary t).names = [] := rfl

@[simp] theorem tokens_binary (l r : String) : (binary l r).tokens = [] := rfl

@[simp] theorem tokens_unary (t : String) : (unary t).tokens = [t] := rfl

/-- The written form. Two names of one character each are written together, other pairs with a
blank between them. -/
def render : Production → String
  | binary l r => if l.length = 1 ∧ r.length = 1 then l ++ r else l ++ " " ++ r
  | unary t => t

end Production

end Chomsky
