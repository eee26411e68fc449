import GroupCalendar.Url.Basic
import GroupCalendar.Proofs.Url.Percent

/-! # Addresses below an address

A segment that is put at the end of a path is written percent encoded. A point or two points are
passed over, and tabs and ends of lines are left out, so that a segment with these is another one in
the path, or none at all.
-/

namespace GroupCalendar

open Text

namespace UrlPath

/-- Points of a segment are read as points. -/
theorem decode_of_isDots {count : Nat} {cs : List Char} (h : isDots count cs = true) :
    Percent.decode cs = Utf8.encodeChars (List.replicate count '.') := by
  fun_induction isDots count cs with
  | case1 count =>
    obtain rfl : count = 0 := of_decide_eq_true h
    rfl
  | case2 count rest ih =>
    obtain ⟨hcount, hrest⟩ := (Bool.and_eq_true ..).mp h
    obtain ⟨count, rfl⟩ := Nat.exists_eq_add_one.mpr (of_decide_eq_true hcount)
    exact congrArg (0x2E :: ·) (ih hrest)
  | case3 count rest ih | case4 count rest ih =>
    obtain ⟨hcount, hrest⟩ := (Bool.and_eq_true ..).mp h
    obtain ⟨count, rfl⟩ := Nat.exists_eq_add_one.mpr (of_decide_eq_true hcount)
    exact congrArg (0x2E :: ·) (ih hrest)
  | case5 => cases h

theorem isDots_replicate (count : Nat) : isDots count (List.replicate count '.') = true := by
  induction count with
  | zero => rfl
  | succ count ih => exact ih

/-- Of the encoded texts only points alone are points of a path. -/
theorem isDots_encode_iff {encoded : Char → Bool} (hreads : Percent.Reads encoded)
    (hpoint : encoded '.' = false) {count : Nat} {cs : List Char} :
    isDots count (Percent.encode encoded cs) = true ↔ cs = List.replicate count '.' := by
  constructor
  · intro h
    have hdecode := decode_of_isDots h
    rw [Percent.decode_encode hreads] at hdecode
    exact Utf8.encodeChars_inj.mp hdecode
  · rintro rfl
    rw [Percent.encode_of_kept fun c hc => List.eq_of_mem_replicate hc ▸ hpoint]
    exact isDots_replicate count

end UrlPath

namespace Url

variable {special : Bool} {parts : List (List Char)} {segment : String}

/-- The characters of a segment that are left out. -/
def breaks : List Char := ['\t', '\n', '\r']

/-- A segment that is kept as it is. -/
structure Kept (segment : String) : Prop where
  ne_point : segment ≠ "."
  ne_points : segment ≠ ".."
  unbroken : ∀ c ∈ segment.toList, c ∉ breaks

/-- The characters of a segment that are not left out. -/
def unbroken (segment : String) : List Char :=
  segment.toList.filter fun c => !(breaks.contains c)

def written (special : Bool) (cs : List Char) : List Char :=
  Percent.encode (Percent.inSegment special) cs

theorem isDots_written {count : Nat} {cs : List Char} :
    UrlPath.isDots count (written special cs) = true ↔ cs = List.replicate count '.' :=
  UrlPath.isDots_encode_iff (Percent.reads_inSegment special) (by cases special <;> decide)

theorem moveOf_written (cs : List Char) :
    UrlPath.Move.of (written special cs) =
      if cs = ['.', '.'] then .up else if cs = ['.'] then .stay
      else .down (written special cs) := by
  rw [UrlPath.Move.of]
  simp only [isDots_written]
  rfl

/-- What a segment does to a path: points alone are passed over as they are, and are points of the
path where something between them is left out. -/
theorem pushSegment_eq (special : Bool) (parts : List (List Char)) (segment : String) :
    pushSegment special parts segment =
      if segment = "." ∨ segment = ".." then parts
      else if unbroken segment = ['.', '.'] then parts.dropLast ++ [[]]
      else if unbroken segment = ['.'] then parts ++ [[]]
      else parts ++ [written special (unbroken segment)] := by
  have hpoint : segment.toList = ".".toList ↔ segment = "." := String.toList_inj
  have hpoints : segment.toList = "..".toList ↔ segment = ".." := String.toList_inj
  refine if_congr (or_congr hpoint hpoints) rfl ?_
  change (UrlPath.move true parts.reverse (written special (unbroken segment))).reverse = _
  rw [UrlPath.move, moveOf_written]
  by_cases htwo : unbroken segment = ['.', '.']
  · simp [htwo]
  · by_cases hone : unbroken segment = ['.']
    · simp [hone]
    · simp [htwo, hone]

theorem kept_iff :
    Kept segment ↔ ¬ (segment = "." ∨ segment = "..") ∧ unbroken segment = segment.toList := by
  have hunbroken : unbroken segment = segment.toList ↔ ∀ c ∈ segment.toList, c ∉ breaks := by
    rw [unbroken, List.filter_eq_self]
    simp
  rw [hunbroken, not_or]
  exact ⟨fun h => ⟨⟨h.ne_point, h.ne_points⟩, h.unbroken⟩, fun h => ⟨h.1.1, h.1.2, h.2⟩⟩

theorem pushSegment_of_kept (h : Kept segment) :
    pushSegment special parts segment = parts ++ [written special segment.toList] := by
  have hpoint : segment.toList ≠ ['.'] := fun he => h.ne_point (String.toList_inj.mp he)
  have hpoints : segment.toList ≠ ['.', '.'] := fun he => h.ne_points (String.toList_inj.mp he)
  obtain ⟨hne, hunbroken⟩ := kept_iff.mp h
  rw [pushSegment_eq, hunbroken, if_neg hne, if_neg hpoints, if_neg hpoint]

theorem decode_written (special : Bool) (cs : List Char) :
    Percent.decode (written special cs) = Utf8.encodeChars cs :=
  Percent.decode_encode (Percent.reads_inSegment special) cs

/-- The signs that end a segment, a path or a query. -/
def ends : List Char := ['/', '?', '#']

theorem notMem_written {c : Char} (hc : c ∈ ends) (cs : List Char) : c ∉ written special cs := by
  have hspecial : Percent.inSegment special c = true ∧ c ≠ '%' ∧ c.isAlphanum = false := by
    simp only [ends, List.mem_cons, List.not_mem_nil, or_false] at hc
    rcases hc with rfl | rfl | rfl <;> cases special <;> decide
  intro hmem
  rcases Percent.mem_encode hmem with h | h | h
  · rw [hspecial.1] at h
    cases h
  · exact hspecial.2.1 h
  · rw [hspecial.2.2] at h
    cases h

/-- No segment that is put at the end of a path ends it. -/
theorem notMem_pushSegment {c : Char} (hc : c ∈ ends) (h : ∀ part ∈ parts, c ∉ part) :
    ∀ part ∈ pushSegment special parts segment, c ∉ part := by
  intro part hpart
  rw [pushSegment_eq] at hpart
  split at hpart
  · exact h part hpart
  split at hpart
  · rcases List.mem_append.mp hpart with hpart | hpart
    · exact h part (List.dropLast_subset _ hpart)
    · exact List.mem_singleton.mp hpart ▸ List.not_mem_nil
  split at hpart <;> rcases List.mem_append.mp hpart with hpart | hpart
  · exact h part hpart
  · exact List.mem_singleton.mp hpart ▸ List.not_mem_nil
  · exact h part hpart
  · exact List.mem_singleton.mp hpart ▸ notMem_written hc _

theorem notMem_below {c : Char} (hc : c ∈ ends) (h : ∀ part ∈ parts, c ∉ part)
    (segments : List String) :
    ∀ part ∈ segments.foldl (pushSegment special) parts, c ∉ part := by
  induction segments generalizing parts with
  | nil => exact h
  | cons segment segments ih => exact ih (notMem_pushSegment hc h)

section Host

variable {u : Url} {name : List Char} {rest : List (List Char)}

/-- The text of an address on the host of another one, with the same fragment. -/
def onHost (u : Url) (target : List Char) : String :=
  String.ofList (u.scheme ++ ':' :: u.authority ++ target ++ u.fragment.elim [] ('#' :: ·))

/-- A path that begins with a name cannot be taken for an authority. -/
theorem pathChars_of_ne (hpath : u.path = .segments (name :: rest)) (hne : name ≠ []) :
    u.pathChars = (name :: rest).flatMap ('/' :: ·) := by
  rw [Url.pathChars]
  split
  · next h =>
    rw [hpath] at h
    cases h
    exact absurd rfl hne
  · rw [hpath]
    rfl

/-- Of the address of a path and a query these two stand between the host and the fragment. -/
theorem toText_of_path (hne : name ≠ []) (query : List Char) :
    { u with path := .segments (name :: rest), query := some query }.toText =
      u.onHost ((name :: rest).flatMap ('/' :: ·) ++ '?' :: query) := by
  have hpath : { u with path := .segments (name :: rest), query := some query }.pathChars =
      (name :: rest).flatMap ('/' :: ·) := pathChars_of_ne rfl hne
  rw [toText, toChars, hpath, onHost, ← List.append_assoc _ (List.flatMap _ _) _]
  cases u.fragment <;> rfl

end Host

end Url

end GroupCalendar
