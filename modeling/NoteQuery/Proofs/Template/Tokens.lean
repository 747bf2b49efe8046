import Mathlib.Data.List.GetD
import Mathlib.Data.List.Nodup
import NoteQuery.Proofs.Calendar.Digits
import NoteQuery.Proofs.Text.Substitution

/-!
# The tokens of formats

The values of a format's tokens are names, ordinals and numbers. No token is found in the value of a
token that is replaced before it: a name holds none of the tokens behind its own, and in an ordinal
or a number no letter stands twice, as it does in all tokens that follow. So the tokens of a format
that are kept apart do not disturb one another.
-/

namespace NoteQuery

set_option autoImplicit false

open Text

theorem toList_toString_int (y : Int) :
    (toString y).toList = (if y < 0 then ['-'] else []) ++ Nat.toDigits 10 y.natAbs := by
  cases y with
  | ofNat n =>
    have hnonneg : ¬Int.ofNat n < 0 := Int.not_lt.mpr (Int.natCast_nonneg n)
    rw [if_neg hnonneg]
    exact Nat.toList_repr
  | negSucc n =>
    rw [if_pos (Int.negSucc_lt_zero n)]
    have hrepr : (toString (Int.negSucc n)).toList = ("-" ++ (n + 1).repr).toList := rfl
    rw [hrepr, String.toList_append, Nat.toList_repr]
    rfl

namespace Text

/-- Nothing but digits stands twice in the text. -/
def Once (cs : List Char) : Prop := ∀ c, Decimal.isDigit c = false → cs.count c ≤ 1

/-- Something other than a digit stands twice in the text. -/
def Doubled (cs : List Char) : Prop := ∃ c, Decimal.isDigit c = false ∧ 1 < cs.count c

theorem Once.not_infix {cs mark : List Char} (h : Once cs) (hmark : Doubled mark) : ¬mark <:+: cs := by
  intro hoccurs
  obtain ⟨c, hc, hcount⟩ := hmark
  have hle : mark.count c ≤ cs.count c := hoccurs.sublist.count_le c
  have honce : cs.count c ≤ 1 := h c hc
  omega

theorem Once.swap {cs ds : List Char} (h : Once (cs ++ ds)) : Once (ds ++ cs) := by
  intro c hc
  rw [List.perm_append_comm.count_eq]
  exact h c hc

theorem once_append_digits {cs ds : List Char} (hcs : cs.Nodup)
    (hds : ∀ c ∈ ds, Decimal.isDigit c = true) :
    Once (cs ++ ds) := by
  intro c hc
  have hone : cs.count c ≤ 1 := List.nodup_iff_count_le_one.mp hcs c
  have hzero : ds.count c = 0 := by
    rw [List.count_eq_zero]
    intro hmem
    rw [hds c hmem] at hc
    cases hc
  rw [List.count_append]
  omega

theorem pairwise_of_once {table : List (String × String)} (hvalues : ∀ e ∈ table, Once e.2.toList)
    (htokens : ∀ e ∈ table.tail, Doubled e.1.toList) :
    table.Pairwise fun e e' => ¬e'.1.toList <:+: e.2.toList := by
  induction table with
  | nil => exact .nil
  | cons e table ih =>
    obtain ⟨he, hvalues⟩ := List.forall_mem_cons.mp hvalues
    exact .cons (fun e' he' => he.not_infix (htokens e' he')) (ih hvalues fun e' he' =>
      htokens e' (List.mem_of_mem_tail he'))

end Text

theorem Calendar.once_padded (width n : Nat) : Once (padded width n).toList := by
  have h := once_append_digits List.nodup_nil (writes_padded width n).isDigit
  rwa [List.nil_append] at h

namespace Date

open Calendar

theorem dayName_mem (d : Date) : d.dayName ∈ dayNames := by
  have hlt : d.weekday < dayNames.length := by
    have hmod := Int.emod_lt_of_pos (d.dayNumber - 1) (by decide : (0 : Int) < 7)
    change ((d.dayNumber - 1) % 7).toNat < 7
    omega
  rw [dayName, List.getD_eq_getElem _ _ hlt]
  exact List.getElem_mem hlt

theorem monthName_mem (d : Date) : d.monthName ∈ monthNames := by
  have hlt : d.month - 1 < monthNames.length := by
    have hmonth := d.isDay.month_le
    have hleast := d.isDay.one_le_month
    change d.month - 1 < 12
    omega
  rw [monthName, List.getD_eq_getElem _ _ hlt]
  exact List.getElem_mem hlt

end Date

namespace Instant

def tokenNames : List String := ["dddd", "MMMM", "Do", "YYYY", "MM", "DD", "HH", "mm", "ss"]

def tokenLetters : List Char := ['d', 'M', 'D', 'o', 'Y', 'H', 'm', 's']

theorem tokenNames_spelled : ∀ t ∈ tokenNames, t.toList ≠ [] ∧ t.toList ⊆ tokenLetters := by decide

theorem tokenNames_pairwise : tokenNames.Pairwise fun t t' => ¬t.toList <:+: t'.toList := by decide

theorem doubled_of_mem_drop : ∀ t ∈ tokenNames.drop 3, Doubled t.toList := by
  have hfirst : ∀ t ∈ tokenNames.drop 3, Decimal.isDigit (t.toList.headD ' ') = false ∧
      1 < t.toList.count (t.toList.headD ' ') := by decide
  exact fun t ht => ⟨_, hfirst t ht⟩

theorem dayNames_quiet :
    ∀ name ∈ Calendar.dayNames, ∀ t ∈ tokenNames.drop 1, ¬t.toList <:+: name.toList := by decide

theorem monthNames_quiet :
    ∀ name ∈ Calendar.monthNames, ∀ t ∈ tokenNames.drop 2, ¬t.toList <:+: name.toList := by decide

theorem quiet_of_names {names : List String} {value : List Char} {table : List (String × String)}
    (hquiet : ∀ t ∈ names, ¬t.toList <:+: value) (hnames : table.map Prod.fst = names) :
    ∀ e ∈ table, ¬e.1.toList <:+: value := by
  intro e he
  exact hquiet e.1 (hnames ▸ List.mem_map_of_mem he)

theorem once_ordinal (n : Nat) : Once (ordinal n).toList := by
  rw [ordinal, String.toList_append]
  refine (once_append_digits ?_ (Decimal.writes_toString n).isDigit).swap
  split
  · decide
  · split
    · decide
    · split
      · decide
      · split <;> decide

theorem once_year (y : Int) : Once (toString y).toList := by
  rw [toList_toString_int]
  refine once_append_digits ?_ fun c hc => Nat.isDigit_of_mem_toDigits (by decide) (by decide) hc
  split <;> decide

variable (now : Instant)

theorem map_fst_tokens : now.tokens.map Prod.fst = tokenNames := rfl

theorem independent_tokens : Independent now.tokens := by
  have hdoubled : ∀ e ∈ now.tokens.drop 3, Doubled e.1.toList :=
    fun e he => doubled_of_mem_drop e.1 (List.mem_map_of_mem he)
  have honce : ∀ e ∈ now.tokens.drop 2, Once e.2.toList := by
    simp only [tokens, List.drop_succ_cons, List.drop_zero, List.forall_mem_cons]
    exact ⟨once_ordinal _, once_year _, Calendar.once_padded _ _, Calendar.once_padded _ _,
      Calendar.once_padded _ _,
      Calendar.once_padded _ _, Calendar.once_padded _ _, List.forall_mem_nil _⟩
  have hvalues : now.tokens.Pairwise fun e e' => ¬e'.1.toList <:+: e.2.toList :=
    .cons (quiet_of_names (dayNames_quiet _ now.date.dayName_mem) rfl)
      (.cons (quiet_of_names (monthNames_quiet _ now.date.monthName_mem) rfl) (pairwise_of_once honce hdoubled))
  have hnames : (now.tokens.map Prod.fst).Pairwise fun t t' => ¬t.toList <:+: t'.toList :=
    tokenNames_pairwise
  exact hvalues.and (List.pairwise_map.mp hnames)

def valueOf (token : String) : String := (now.tokens.lookup token).getD ""

theorem shown_eq_valueOf {token : String} (h : token ∈ tokenNames) :
    shown now.tokens token = (now.valueOf token).toList := by
  rw [shown, valueOf]
  cases hlookup : now.tokens.lookup token with
  | some v => rfl
  | none => exact absurd h (now.map_fst_tokens ▸ lookup_eq_none_iff.mp hlookup)

theorem format_chunks {first : List Char} {parts : List (String × List Char)}
    (htokens : ∀ p ∈ parts, p.1 ∈ tokenNames)
    (hfirst : ∀ c ∈ first, c ∉ tokenLetters) (hparts : Apart tokenLetters parts) :
    now.format (first ++ chunks String.toList parts) =
      first ++ chunks (fun t => (now.valueOf t).toList) parts := by
  have hspelled : ∀ e ∈ now.tokens, e.1.toList ≠ [] ∧ e.1.toList ⊆ tokenLetters :=
    fun e he => tokenNames_spelled e.1 (List.mem_map_of_mem he)
  have hvalues : chunks (shown now.tokens) parts = chunks (fun t => (now.valueOf t).toList) parts :=
    chunks_congr fun p hp => now.shown_eq_valueOf (htokens p hp)
  rw [← hvalues]
  exact foldl_replaceFirst [] hparts hfirst now.independent_tokens htokens hspelled

theorem format_tokens_apart (first : List Char) (parts : List (String × List Char))
    (htokens : ∀ p ∈ parts, p.1 ∈ tokenNames) (hdistinct : (parts.map Prod.fst).Nodup)
    (hliterals : ∀ l ∈ first :: parts.map Prod.snd, ∀ c ∈ l, c ∉ tokenLetters)
    (hbetween : ∀ p ∈ parts.dropLast, p.2 ≠ []) :
    now.format (first ++ parts.flatMap fun p => p.1.toList ++ p.2) =
      first ++ parts.flatMap fun p => (now.valueOf p.1).toList ++ p.2 := by
  obtain ⟨hfirst, hbehind⟩ := List.forall_mem_cons.mp hliterals
  have hparts : Apart tokenLetters parts :=
    ⟨hdistinct, fun p hp => hbehind p.2 (List.mem_map_of_mem hp), hbetween⟩
  exact now.format_chunks htokens hfirst hparts

theorem format_tokens_apart_long_date :
    format ⟨⟨2024, 11, 9, by decide⟩, 14, 5, 7⟩ "dddd, MMMM Do YYYY HH:mm:ss".toList =
      "Saturday, November 9th 2024 14:05:07".toList := by
  have happlied := format_tokens_apart ⟨⟨2024, 11, 9, by decide⟩, 14, 5, 7⟩ []
    [("dddd", [',', ' ']), ("MMMM", [' ']), ("Do", [' ']), ("YYYY", [' ']), ("HH", [':']),
      ("mm", [':']), ("ss", [])]
    (by decide) (by decide) (by simp [tokenLetters]) (by decide)
  exact happlied.trans (by decide)

end Instant

end NoteQuery
