import Xref.Proofs.Lexeme.Boundary
import Xref.Proofs.Lexeme.Cuts

/-!
# Names that stand for nothing

In C# a sign may be followed by an escape that cannot begin a name. Then the sign alone is taken for
a name and stands for nothing, and the next token begins at the backslash of the escape and is an
operator. So such a name is never an alias, which has its mark next to it
(`LexemeSeq.mayPrecede_of_infix_scan`).
-/

namespace Xref

open Identifier

/-- A name that stands for nothing has no mark behind it. -/
def Lexeme.MayPrecede (a e : Lexeme) : Prop :=
  a.kind = .identifier → a.value = [] → e.kind ≠ .equals

namespace Shape

theorem kind_mark_backslash (r : Text) : (mark .csharp '\\' r).kind ≠ .equals := by
  unfold mark
  split
  · dsimp only
    split
    · exact nofun
    · exact nofun
  · exact nofun

/-- Where no name begins, a backslash is an operator. -/
theorem kind_csharp_backslash {r : Text} (h : spelled? isStart '\\' r = none) :
    (csharp '\\' r).kind ≠ .equals := by
  have hb : beginsNumber '\\' r = false := rfl
  unfold csharp
  rw [h]
  simp only [hb]
  exact kind_mark_backslash r

end Shape

namespace LexemeSeq

theorem rest_trailing_backslash (m : Margin) (r : Text) :
    (Gap.trailing .csharp m ('\\' :: r)).rest = '\\' :: r := by
  rw [Gap.trailing.eq_def]
  rfl

theorem rest_leading_backslash (m : Margin) (r : Text) :
    (Gap.leading .csharp m ('\\' :: r)).rest = '\\' :: r := by
  rw [Gap.leading.eq_def]
  rfl

theorem kind_head_scan {m : Margin} {r : Text} (h : Shape.spelled? isStart '\\' r = none) :
    ∀ e ∈ (scan .csharp m ('\\' :: r)).all.head?, e.kind ≠ .equals := by
  intro e he
  rw [scan_of_token (rest_leading_backslash _ r)] at he
  obtain rfl := Option.some.inj he
  exact Shape.kind_csharp_backslash h

/-- What stands next to a name that stands for nothing may follow it. -/
theorem mayPrecede_scan (l : Language) (m : Margin) (s : Text) :
    (scan l m s).all.IsChain Lexeme.MayPrecede := by
  refine isChain_scan_of (fun {lead c r} e he hk hv => ?_) m s
  rcases Shape.isName_ofLanguage hk with ⟨-, hn, r', rfl, hs⟩ | hn
  · cases l with
    | csharp =>
        rw [trailOf, hn, List.drop_zero, rest_trailing_backslash] at he
        exact kind_head_scan hs e he
    | visualBasic => exact absurd hv (Shape.isName_visualBasic rfl hk).ne_nil
  · exact absurd hv hn.ne_nil

/-- Next to each other, the second lexeme may follow the first. -/
theorem mayPrecede_of_infix_scan {l : Language} {m : Margin} {s : Text} {a e : Lexeme}
    (h : [a, e] <:+: (scan l m s).all) : a.MayPrecede e :=
  have hc := List.IsChain.infix (mayPrecede_scan l m s) h
  List.isChain_pair.1 hc

end LexemeSeq

end Xref
