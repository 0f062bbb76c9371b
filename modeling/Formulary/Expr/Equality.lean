import Formulary.Expr.Basic
import Formulary.Number.Binary

/-!
# Equality of trees

Two trees are the same if they differ at most in their spans.  How number literals are compared is a
parameter: `same` compares them as numbers, so that both zeros are the same and a NaN is not the
same as itself, and `sameForm` lets a NaN be the same as a NaN.
-/

set_option autoImplicit false

namespace Formulary

/-- Whether two doubles are the same number. -/
def Number.sameNumber (x y : Float) : Bool :=
  match Number.place x, Number.place y with
  | some a, some b => a == b
  | _, _ => false

namespace Foreign

/-- Whether two foreign items are the same, spans aside. -/
def same : Foreign → Foreign → Bool
  | .node kind _, .node kind' _ => kind == kind'
  | .nothing, .nothing => true
  | .text s, .text s' => s == s'
  | _, _ => false

end Foreign

namespace Expr

mutual

/-- Whether two trees differ at most in their spans, number literals being compared as given. -/
def sameWith (numbers : Float → Float → Bool) : Expr → Expr → Bool
  | .program _ xs, .program _ ys => sameAllWith numbers xs ys
  | .number _ x, .number _ y => numbers x y
  | .string _ x, .string _ y => x == y
  | .boolean _ x, .boolean _ y => x == y
  | .array _ xs, .array _ ys => sameAllWith numbers xs ys
  | .identifier _ x, .identifier _ y => x == y
  | .binary _ op l r, .binary _ op' l' r' =>
    op.symbol == op'.symbol && sameWith numbers l l' && sameWith numbers r r'
  | .unary _ op a, .unary _ op' a' => op.symbol == op'.symbol && sameWith numbers a a'
  | .call _ f xs, .call _ f' ys => f == f' && sameAllWith numbers xs ys
  | .assign _ x e, .assign _ x' e' => x == x' && sameWith numbers e e'
  | .conditional _ c a b, .conditional _ c' a' b' =>
    sameWith numbers c c' && sameWith numbers a a' && sameWith numbers b b'
  | .comprehension _ x i none b, .comprehension _ x' i' none b' =>
    x == x' && sameWith numbers i i' && sameWith numbers b b'
  | .comprehension _ x i (some g) b, .comprehension _ x' i' (some g') b' =>
    x == x' && sameWith numbers i i' && sameWith numbers g g' && sameWith numbers b b'
  | .index _ o i, .index _ o' i' => sameWith numbers o o' && sameWith numbers i i'
  | .range _ a b incl, .range _ a' b' incl' =>
    incl == incl' && sameWith numbers a a' && sameWith numbers b b'
  | .foreign x, .foreign y => x.same y
  | _, _ => false

/-- Whether two lists of trees differ at most in their spans. -/
def sameAllWith (numbers : Float → Float → Bool) : List Expr → List Expr → Bool
  | [], [] => true
  | x :: xs, y :: ys => sameWith numbers x y && sameAllWith numbers xs ys
  | _, _ => false

end

/-- Whether two trees are the same, spans aside. -/
def same (a b : Expr) : Bool :=
  sameWith Number.sameNumber a b

/-- Whether two trees are the same, spans aside, a NaN being the same as a NaN. -/
def sameForm (a b : Expr) : Bool :=
  sameWith (fun x y => Number.sameNumber x y || Number.isNaN x && Number.isNaN y) a b

end Expr

end Formulary
