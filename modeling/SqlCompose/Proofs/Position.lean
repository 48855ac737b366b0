import SqlCompose.Value.Quote

/-!
# Positions of an operand

An operand stands on its own, or among the members of a list, which may be a
member itself.  What is written around it does not depend on what it is, as
long as it is no list: lists inside of lists get brackets.

`Position.quote_fill` is the one lemma: what is written in front of the
operand, its own text, and what is written behind it.
-/

namespace SqlCompose

namespace Text

theorem joinWith_cons (sep first : Text) (rest : List Text) :
    joinWith sep (first :: rest) = first ++ rest.flatMap (sep ++ ·) := by
  induction rest generalizing first with
  | nil => simp
  | cons next rest ih =>
    rw [joinWith, List.intercalate_cons_cons, ← joinWith, ih]
    simp

/-- Pieces in front of one keep their separators behind them, pieces behind it in front of
them. -/
theorem joinWith_append_cons (sep : Text) (before : List Text) (piece : Text)
    (behind : List Text) :
    joinWith sep (before ++ piece :: behind) =
      before.flatMap (· ++ sep) ++ piece ++ behind.flatMap (sep ++ ·) := by
  induction before with
  | nil => exact joinWith_cons sep piece behind
  | cons first before ih =>
    have hrest : before ++ piece :: behind ≠ [] := by simp
    rw [List.cons_append, joinWith, List.intercalate_cons_of_ne_nil hrest, ← joinWith, ih]
    simp

end Text

namespace Value

/-- A position for an operand. -/
inductive Position where
  | alone
  | member (before : List Value) (inner : Position) (behind : List Value)

namespace Position

/-- Whether the position is in a list. -/
def isMember : Position → Bool
  | alone => false
  | member _ _ _ => true

/-- What stands at the place of the position with the operand in it. -/
def fill (v : Value) : Position → Value
  | alone => v
  | member before inner behind => .list (before ++ fill v inner :: behind)

/-- What is written in front of the operand. -/
def front : Position → Text
  | alone => []
  | member before inner _ =>
    (quoteItems before).flatMap (· ++ lit ", ") ++
      (if inner.isMember then ['('] else []) ++ inner.front

/-- What is written behind the operand. -/
def back : Position → Text
  | alone => []
  | member _ inner behind =>
    inner.back ++ (if inner.isMember then [')'] else []) ++
      (quoteItems behind).flatMap (lit ", " ++ ·)

variable {v : Value}

theorem isList_fill (h : v.isList = false) (p : Position) : (p.fill v).isList = p.isMember := by
  cases p with
  | alone => exact h
  | member before inner behind => rfl

/-- An operand that is no list is written between what stands in front of it and behind it. -/
theorem quote_fill (h : v.isList = false) (p : Position) :
    (p.fill v).quote = p.front ++ v.quote ++ p.back := by
  induction p with
  | alone => simp [fill, front, back]
  | member before inner behind ih =>
    rw [fill, quote, quoteItems_eq_map, List.map_append, List.map_cons,
      Text.joinWith_append_cons, isList_fill h, ih, front, back, quoteItems_eq_map,
      quoteItems_eq_map]
    cases inner.isMember <;> simp [Text.bracketed]

end Position

end Value

end SqlCompose
