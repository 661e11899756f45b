/- # Proofs.Json.OneLine -- a printed value lies on one line

No character that the printer writes lies below U+0020: those of a string are
written by a letter or by code point. So a line feed behind a printed value is the
first one, and texts that end in one can be taken apart again.
-/
import ArchiveRecord.Json.Printer
import ArchiveRecord.Proofs.Text.Numeral
import Mathlib.Tactic.SplitIfs

namespace ArchiveRecord.Json

/-- **`OneLine text`** -- no character of the text is a control character. -/
def OneLine (text : List Char) : Prop := ∀ c ∈ text, 0x20 ≤ c.toNat

instance (text : List Char) : Decidable (OneLine text) :=
  List.decidableBAll (fun c : Char => 0x20 ≤ c.toNat) text

namespace OneLine

theorem nil : OneLine [] := by
  intro c hc
  cases hc

theorem cons {c : Char} {text : List Char} (hc : 0x20 ≤ c.toNat) (h : OneLine text) :
    OneLine (c :: text) :=
  List.forall_mem_cons.mpr ⟨hc, h⟩

theorem append {first second : List Char} (h : OneLine first) (k : OneLine second) :
    OneLine (first ++ second) :=
  List.forall_mem_append.mpr ⟨h, k⟩

theorem flatMap {α : Type} {f : α → List Char} (h : ∀ a, OneLine (f a)) (list : List α) :
    OneLine (list.flatMap f) := by
  intro c hc
  obtain ⟨a, -, ha⟩ := List.mem_flatMap.mp hc
  exact h a c ha

theorem newline_notMem {text : List Char} (h : OneLine text) : '\n' ∉ text := by
  intro hmem
  exact absurd (h '\n' hmem) (by decide)

end OneLine

/-! ## The parts of a text -/

theorem oneLine_numeral (width n : Nat) : OneLine (Text.numeral 16 width n) := by
  have hdigit (d : Nat) (h : d < 16) : 0x20 ≤ (Nat.digitChar d).toNat := by
    interval_cases d <;> decide
  induction width generalizing n with
  | zero => exact .nil
  | succ width ih => exact (ih (n / 16)).append (.cons (hdigit _ (Nat.mod_lt n (by omega))) .nil)

theorem oneLine_integer (n : Int) : OneLine (Text.integer n) := by
  have hnatural (n : Nat) : OneLine (Text.natural n) := by
    intro c hc
    have hdigit := Text.isDigit_of_mem_natural hc
    simp only [Char.isDigit, Bool.and_eq_true, decide_eq_true_eq] at hdigit
    have hzero : '0'.toNat ≤ c.toNat := hdigit.1
    exact Nat.le_trans (by decide) hzero
  cases n with
  | ofNat n => exact hnatural n
  | negSucc n => exact .cons (by decide) (hnatural (n + 1))

theorem oneLine_escapedChar (c : Char) : OneLine (escapedChar c) := by
  unfold escapedChar
  split_ifs with hquote hbackslash hfeed hreturn htab hpage hback hcontrol
  -- The quote, the backslash and the five letters are fixed texts.
  on_goal 8 => exact .cons (by decide) (.cons (by decide) (oneLine_numeral 4 c.toNat))
  on_goal 8 => exact .cons (Nat.le_of_not_lt hcontrol) .nil
  all_goals decide

theorem oneLine_stringText (text : List Char) : OneLine (stringText text) :=
  .append (.cons (by decide) (.flatMap oneLine_escapedChar text)) (by decide)

/-! ## Values -/

mutual

/-- **A printed value lies on one line**, if the separators do. -/
theorem oneLine_text {style : Style} (hbetween : OneLine style.betweenItems)
    (hkey : OneLine style.afterKey) (value : Value) : OneLine (text style value) := by
  cases value with
  | null => exact (by decide : OneLine "null".toList)
  | bool b =>
      cases b with
      | false => exact (by decide : OneLine "false".toList)
      | true => exact (by decide : OneLine "true".toList)
  | int n => rw [text]; exact oneLine_integer n
  | string s => rw [text]; exact oneLine_stringText s.toList
  | list items =>
      rw [text]
      exact .append (.cons (by decide) (oneLine_itemsText hbetween hkey items))
        (by decide)
  | mapping members =>
      rw [text]
      exact .append (.cons (by decide) (oneLine_membersText hbetween hkey members))
        (by decide)

theorem oneLine_itemsText {style : Style} (hbetween : OneLine style.betweenItems)
    (hkey : OneLine style.afterKey) (items : List Value) : OneLine (itemsText style items) := by
  match items with
  | [] => rw [itemsText]; exact .nil
  | [item] => rw [itemsText]; exact oneLine_text hbetween hkey item
  | item :: next :: items =>
      have hitem := oneLine_text hbetween hkey item
      have hmore := oneLine_itemsText hbetween hkey (next :: items)
      rw [itemsText]
      · exact (hitem.append hbetween).append hmore
      · simp

theorem oneLine_membersText {style : Style} (hbetween : OneLine style.betweenItems)
    (hkey : OneLine style.afterKey) (members : List (String × Value)) :
    OneLine (membersText style members) := by
  match members with
  | [] => rw [membersText]; exact .nil
  | [(key, value)] =>
      rw [membersText]
      exact ((oneLine_stringText key.toList).append hkey).append (oneLine_text hbetween hkey value)
  | (key, value) :: next :: members =>
      have hvalue := oneLine_text hbetween hkey value
      have hmore := oneLine_membersText hbetween hkey (next :: members)
      rw [membersText]
      · exact ((((oneLine_stringText key.toList).append hkey).append hvalue).append
          hbetween).append hmore
      · simp

end

end ArchiveRecord.Json
