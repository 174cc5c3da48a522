import Concordance.Extract.ImportText
import Concordance.Proofs.Chars.Find

/-!
# Paths below other paths

The path `b::c` below `a` is `a::b::c`. It names the same as `b::c` does, with `a` before it: the last
part is the same and the module goes below `a` (`Text.splitLast_below`), and so it is with a wildcard
(`Text.wildcardSource_below`). The one exception is a path that is a single name behind a colon or two,
as `::c` is: in `a::::c` one pair of colons too many is left at the module
(`Text.splitLast_below_rooted`).
-/

namespace Concordance.Text

/-- Whether a path is one name behind a colon or two, as `::b` is. -/
def isRooted (path : String) : Bool :=
  (splitLast "::" path).1.isEmpty && startsWith ":" path

/-- Two paths are joined by the separator. -/
theorem joinPath_of_ne {above path : String} (habove : above ≠ "") (hpath : path ≠ "") (sep : String) :
    joinPath sep above path = above ++ sep ++ path := by
  rw [joinPath, if_neg (by simpa using habove), if_neg (by simpa using hpath)]

theorem joinPath_empty (sep above : String) : joinPath sep above "" = above := by
  rw [joinPath]
  split
  · next h => exact (String.isEmpty_iff.mp h).symm
  · rfl

/-- A text that is cut at its last pair of colons. -/
theorem splitLast_of_cutLast {s front back : String}
    (h : Chars.CutLast [':', ':'] s.toList front.toList back.toList) :
    splitLast "::" s = (front, back) := by
  have hsplit : Chars.splitLast "::".toList s.toList = (front.toList, back.toList) :=
    Chars.splitLast_of_cutLast h
  rw [splitLast, hsplit]
  simp only [String.ofList_toList]

theorem splitLast_of_absent {s : String} (h : ¬ [':', ':'] <:+: s.toList) :
    splitLast "::" s = ("", s) := by
  have hsplit : Chars.splitLast "::".toList s.toList = ([], s.toList) :=
    Chars.splitLast_of_absent h
  rw [splitLast, hsplit]
  simp only [String.ofList_toList, String.ofList_nil]

/-- A path with colons is cut at the last pair of them. -/
theorem exists_splitLast_of_occurs {s : String} (h : [':', ':'] <:+: s.toList) :
    ∃ front back : String, splitLast "::" s = (front, back) ∧
      Chars.CutLast [':', ':'] s.toList front.toList back.toList := by
  obtain ⟨front, back, hcut⟩ := Chars.exists_cutLast h
  have hcut' : Chars.CutLast [':', ':'] s.toList (String.ofList front).toList
      (String.ofList back).toList := by
    rw [String.toList_ofList, String.toList_ofList]
    exact hcut
  exact ⟨_, _, splitLast_of_cutLast hcut', hcut'⟩

theorem startsWith_colon_iff (path : String) : startsWith ":" path ↔ [':'] <+: path.toList :=
  List.isPrefixOf_iff_prefix

variable {above path : String}

theorem toList_colons (above path : String) :
    (above ++ "::" ++ path).toList = above.toList ++ [':', ':'] ++ path.toList := by
  rw [String.toList_append, String.toList_append]
  rfl

/-- **A path below another** is cut where it is cut alone, with the other before it, unless it is
rooted. -/
theorem splitLast_below (habove : above ≠ "") (h : isRooted path = false) :
    splitLast "::" (above ++ "::" ++ path) =
      (joinPath "::" above (splitLast "::" path).1, (splitLast "::" path).2) := by
  by_cases hoccurs : [':', ':'] <:+: path.toList
  · obtain ⟨front, back, hsplit, hcut⟩ := exists_splitLast_of_occurs hoccurs
    have hfront : front ≠ "" := by
      rintro rfl
      have hstart : startsWith ":" path := by
        rw [startsWith_colon_iff, hcut.cut]
        exact ⟨':' :: back.toList, rfl⟩
      rw [isRooted, hsplit, hstart] at h
      cases h
    rw [hsplit, joinPath_of_ne habove hfront]
    apply splitLast_of_cutLast
    rw [toList_colons, toList_colons]
    exact hcut.under (above.toList ++ [':', ':'])
  · rw [splitLast_of_absent hoccurs, joinPath_empty]
    apply splitLast_of_cutLast
    rw [toList_colons]
    apply Chars.cutLast_colons
    intro hbad
    rcases List.infix_cons_iff.mp hbad with hfront | hinside
    · have hstart : startsWith ":" path :=
        (startsWith_colon_iff path).mpr ((List.cons_prefix_cons.mp hfront).2)
      rw [isRooted, splitLast_of_absent hoccurs, hstart] at h
      cases h
    · exact hoccurs hinside

/-- A rooted path below another leaves a colon or two behind the other. -/
theorem splitLast_below_rooted (above : String) (h : isRooted path) :
    (splitLast "::" path).1 = "" ∧
      ∃ colons, colons ≠ "" ∧ (splitLast "::" (above ++ "::" ++ path)).1 = above ++ colons := by
  rw [isRooted, Bool.and_eq_true, String.isEmpty_iff, startsWith_colon_iff] at h
  refine ⟨h.1, ?_⟩
  by_cases hoccurs : [':', ':'] <:+: path.toList
  · obtain ⟨front, back, hsplit, hcut⟩ := exists_splitLast_of_occurs hoccurs
    rw [hsplit] at h
    obtain rfl : front = "" := h.1
    have hbelow : splitLast "::" (above ++ "::" ++ path) = (above ++ "::", back) := by
      apply splitLast_of_cutLast
      rw [toList_colons, String.toList_append]
      have := hcut.under (above.toList ++ [':', ':'])
      rw [String.toList_empty, List.append_nil] at this
      exact this
    exact ⟨"::", by decide, by rw [hbelow]⟩
  · obtain ⟨rest, hrest⟩ := h.2
    have hpath : path.toList = ':' :: rest := hrest.symm
    rw [hpath] at hoccurs
    have hbelow : splitLast "::" (above ++ "::" ++ path) = (above ++ ":", .ofList rest) := by
      apply splitLast_of_cutLast
      have hcut := Chars.cutLast_colons (above.toList ++ [':']) hoccurs
      rw [toList_colons, hpath, String.toList_append, String.toList_ofList]
      simpa using hcut
    exact ⟨":", by decide, by rw [hbelow]⟩

/-- Whether a text can be the path of a group: it is not empty, and no colon ends it. -/
def isGroupPath (path : String) : Bool :=
  path.toList.getLast?.any (· != ':')

/-- The path of a group ends with something other than a colon. -/
theorem exists_of_isGroupPath (h : isGroupPath path) :
    ∃ c, path.toList.getLast? = some c ∧ c ≠ ':' := by
  rw [isGroupPath, Option.any_eq_true] at h
  obtain ⟨c, hlast, hc⟩ := h
  exact ⟨c, hlast, by simpa using hc⟩

theorem ne_empty_of_isGroupPath (h : isGroupPath path) : path ≠ "" := by
  rintro rfl
  cases h

/-- A path behind others ends as it does alone. -/
theorem isGroupPath_append (front : String) (h : isGroupPath path) : isGroupPath (front ++ path) := by
  obtain ⟨c, hlast, -⟩ := exists_of_isGroupPath h
  have hwhole : (front ++ path).toList.getLast? = path.toList.getLast? := by
    rw [String.toList_append, List.getLast?_append, hlast]
    rfl
  rw [isGroupPath, hwhole]
  exact h

/-- The paths of groups in groups, joined, are the path of a group. -/
theorem isGroupPath_intercalate {paths : List String} (hne : paths ≠ [])
    (h : ∀ p ∈ paths, isGroupPath p) : isGroupPath ("::".intercalate paths) := by
  obtain rfl | ⟨front, last, rfl⟩ := List.eq_nil_or_concat' paths
  · exact absurd rfl hne
  · have hlast : isGroupPath last := h last (by simp)
    cases front with
    | nil =>
        rw [List.nil_append, String.intercalate_singleton]
        exact hlast
    | cons p front =>
        rw [String.intercalate_append_of_ne_nil (by simp) (by simp), String.intercalate_singleton]
        exact isGroupPath_append _ hlast

/-- The module of a wildcard, as its text has it. -/
def wildcardSource (text : String) : String :=
  let cs := text.toList
  .ofList (Chars.dropEnd (· == ':') (if ['*'].isSuffixOf cs then cs.dropLast else cs))

/-- Leaving out a star at the end leaves alone what stands before. -/
theorem dropStar_append {front : List Char} (hfront : front.getLast? ≠ some '*') (back : List Char) :
    (if ['*'].isSuffixOf (front ++ back) then (front ++ back).dropLast else front ++ back) =
      front ++ if ['*'].isSuffixOf back then back.dropLast else back := by
  have hstar : ∀ cs : List Char, ['*'].isSuffixOf cs ↔ cs.getLast? = some '*' := by
    intro cs
    rw [List.isSuffixOf_iff_suffix, List.singleton_suffix_iff_getLast?_eq_some]
  simp only [hstar]
  obtain rfl | ⟨back, c, rfl⟩ := List.eq_nil_or_concat' back
  · rw [List.append_nil, if_neg hfront, List.getLast?_nil, if_neg (by simp), List.append_nil]
  · rw [← List.append_assoc, List.getLast?_concat, List.getLast?_concat, List.dropLast_concat,
      List.dropLast_concat]
    split
    · rfl
    · rw [List.append_assoc]

/-- Leaving out the colons at the end of a path below a group leaves the path of the group. -/
theorem dropEnd_colons {above : List Char} {c : Char} (habove : above.getLast? = some c)
    (hc : c ≠ ':') (cs : List Char) :
    Chars.dropEnd (· == ':') (above ++ [':', ':'] ++ cs) =
      if Chars.dropEnd (· == ':') cs = [] then above
      else above ++ [':', ':'] ++ Chars.dropEnd (· == ':') cs := by
  have hkept : (above ++ [':', ':']).reverse.dropWhile (· == ':') = above.reverse := by
    rw [List.reverse_append]
    change (':' :: ':' :: above.reverse).dropWhile (· == ':') = above.reverse
    rw [List.dropWhile_cons_of_pos rfl, List.dropWhile_cons_of_pos rfl]
    rw [← List.head?_reverse] at habove
    cases hreverse : above.reverse with
    | nil => rfl
    | cons d rest =>
        rw [hreverse] at habove
        cases habove
        exact List.dropWhile_cons_of_neg (by simpa using hc)
  have hempty : (cs.reverse.dropWhile (· == ':')).isEmpty ↔ Chars.dropEnd (· == ':') cs = [] := by
    rw [Chars.dropEnd, List.reverse_eq_nil_iff, List.isEmpty_iff]
  rw [Chars.dropEnd, List.reverse_append, List.dropWhile_append]
  by_cases hcs : Chars.dropEnd (· == ':') cs = []
  · rw [if_pos (hempty.mpr hcs), if_pos hcs, hkept, List.reverse_reverse]
  · rw [if_neg (fun h => hcs (hempty.mp h)), if_neg hcs, List.reverse_append, List.reverse_reverse]
    rfl

/-- **A wildcard below a path** takes from the module that it names alone, with the path before it. -/
theorem wildcardSource_below (h : isGroupPath above) (text : String) :
    wildcardSource (above ++ "::" ++ text) = joinPath "::" above (wildcardSource text) := by
  obtain ⟨c, hlast, hc⟩ := exists_of_isGroupPath h
  have hcolons : (above.toList ++ [':', ':']).getLast? ≠ some '*' := by
    simp
  rw [wildcardSource, toList_colons, dropStar_append hcolons, dropEnd_colons hlast hc]
  by_cases hempty : Chars.dropEnd (· == ':')
      (if ['*'].isSuffixOf text.toList then text.toList.dropLast else text.toList) = []
  · rw [if_pos hempty, wildcardSource, hempty, String.ofList_nil, joinPath_empty, String.ofList_toList]
  · have hsource : wildcardSource text ≠ "" := by
      intro hsource
      apply hempty
      rw [← String.toList_ofList (l := Chars.dropEnd _ _)]
      exact (congrArg String.toList hsource)
    rw [if_neg hempty, joinPath_of_ne (ne_empty_of_isGroupPath h) hsource, ← String.toList_inj,
      toList_colons, String.toList_ofList, wildcardSource, String.toList_ofList]

end Concordance.Text
