import LiveMedia.Message.Namespace

/-!
# Namespaces and their paths

A namespace is shown as its parts with a slash between neighbours. Every path is the path of the namespace
that is read from it, so nothing is lost on the way from a path and back. On the way from a namespace and
back two things can be lost. A part that holds a slash falls apart at the slash, and an empty part that
stands alone is shown as the empty path, which is the path of no part at all. `Namespace.IsPlain` excludes
these two and nothing else: a namespace is read back from its path exactly if it is plain, so plain
namespaces are told apart by their paths.

Splitting and joining are `List.splitOn` and `List.intercalate` (`splitAtChar_eq_splitOn`,
`joinWithChar_eq_intercalate`), which undo each other on parts that do not hold the separator. What is
added here is the empty path.
-/

namespace LiveMedia

-- ── splitting and joining ───────────────────────────────────────────

namespace Text

variable {separator : Char}

theorem splitAtChar_eq_splitOn (separator : Char) (cs : List Char) :
    splitAtChar separator cs = cs.splitOn separator := by
  induction cs with
  | nil => rfl
  | cons c cs ih =>
      rw [splitAtChar, List.splitOn_cons_eq_if_modifyHead, ih]
      by_cases hc : c = separator
      · rw [if_pos hc, if_pos (beq_iff_eq.mpr hc)]
      · rw [if_neg hc, if_neg (fun heq => hc (beq_iff_eq.mp heq))]
        cases hsplit : cs.splitOn separator with
        | nil => exact absurd hsplit (List.splitOn_ne_nil separator cs)
        | cons part parts => rfl

theorem joinWithChar_eq_intercalate (separator : Char) (parts : List (List Char)) :
    joinWithChar separator parts = [separator].intercalate parts := by
  induction parts with
  | nil => rfl
  | cons part parts ih =>
      cases parts with
      | nil => exact List.intercalate_singleton.symm
      | cons next rest =>
          show part ++ separator :: joinWithChar separator (next :: rest) = _
          rw [ih, List.intercalate_cons_cons, List.append_assoc]
          rfl

/-- No part of a text holds the separator. -/
theorem not_mem_of_mem_splitAtChar {cs part : List Char} (h : part ∈ splitAtChar separator cs) :
    separator ∉ part := by
  induction cs generalizing part with
  | nil =>
      obtain rfl := List.mem_singleton.mp h
      exact List.not_mem_nil
  | cons c cs ih =>
      rw [splitAtChar] at h
      by_cases hc : c = separator
      · rw [if_pos hc] at h
        rcases List.mem_cons.mp h with rfl | h
        · exact List.not_mem_nil
        · exact ih h
      · rw [if_neg hc] at h
        cases hsplit : splitAtChar separator cs with
        | nil => exact absurd hsplit (splitAtChar_ne_nil separator cs)
        | cons first parts =>
            rw [hsplit] at h ih
            rcases List.mem_cons.mp h with rfl | h
            · -- the first part has got one character more
              intro hmem
              rcases List.mem_cons.mp hmem with heq | hmem
              · exact hc heq.symm
              · exact ih List.mem_cons_self hmem
            · exact ih (List.mem_cons_of_mem first h)

/-- Splitting gives the parts that were joined, if there are any and none holds the separator. -/
theorem splitAtChar_joinWithChar {parts : List (List Char)} (hparts : ∀ part ∈ parts, separator ∉ part)
    (hne : parts ≠ []) : splitAtChar separator (joinWithChar separator parts) = parts := by
  rw [splitAtChar_eq_splitOn, joinWithChar_eq_intercalate]
  exact List.splitOn_intercalate separator hparts hne

/-- Only no parts and a single empty one are joined to the empty text. -/
theorem joinWithChar_eq_nil_iff {parts : List (List Char)} :
    joinWithChar separator parts = [] ↔ parts = [] ∨ parts = [[]] := by
  cases parts with
  | nil => exact iff_of_true rfl (.inl rfl)
  | cons part parts =>
      cases parts with
      | nil =>
          show part = [] ↔ [part] = [] ∨ [part] = [[]]
          simp
      | cons next rest =>
          show part ++ separator :: joinWithChar separator (next :: rest) = [] ↔ _
          simp

end Text

-- ── namespaces ──────────────────────────────────────────────────────

namespace Message.Namespace

open LiveMedia.Text

variable {ns : Namespace}

/-- No part holds a slash, and the namespace is not a single empty part. -/
structure IsPlain (ns : Namespace) : Prop where
  no_slash : ∀ part ∈ ns.parts, '/' ∉ part.toList
  not_blank : ns.parts ≠ [""]

/-- A namespace is shown as its parts with a slash between neighbours. -/
theorem path_eq_intercalate (ns : Namespace) : ns.path = "/".intercalate ns.parts := by
  refine String.toList_inj.mp ?_
  rw [path, String.toList_ofList, joinWithChar_eq_intercalate, String.toList_intercalate]
  rfl

theorem toList_path (ns : Namespace) :
    ns.path.toList = joinWithChar '/' (ns.parts.map String.toList) := String.toList_ofList

/-- Only the namespace without parts has the empty path, among plain ones. -/
theorem IsPlain.toList_path_eq_nil_iff (h : ns.IsPlain) : ns.path.toList = [] ↔ ns.parts = [] := by
  rw [toList_path, joinWithChar_eq_nil_iff, List.map_eq_nil_iff, or_iff_left]
  intro hblank
  obtain ⟨part, hparts, hpart⟩ := List.map_eq_singleton_iff.mp hblank
  obtain rfl := String.toList_eq_nil_iff.mp hpart
  exact h.not_blank hparts

/-- **A plain namespace is read back.** -/
theorem IsPlain.ofPath_path (h : ns.IsPlain) : ofPath ns.path = ns := by
  obtain ⟨parts⟩ := ns
  rw [ofPath]
  by_cases hempty : (Namespace.path ⟨parts⟩).toList = []
  · obtain rfl : parts = [] := h.toList_path_eq_nil_iff.mp hempty
    rw [if_pos hempty]
  · have hne : parts.map String.toList ≠ [] := fun hnil =>
      hempty (h.toList_path_eq_nil_iff.mpr (List.map_eq_nil_iff.mp hnil))
    have hparts : ∀ part ∈ parts.map String.toList, '/' ∉ part := List.forall_mem_map.mpr h.no_slash
    have hback : (parts.map String.toList).map String.ofList = parts := by simp [Function.comp_def]
    rw [if_neg hempty, toList_path, splitAtChar_joinWithChar hparts hne, hback]

/-- Whatever is read from a path is plain. -/
theorem isPlain_ofPath (path : String) : (ofPath path).IsPlain := by
  rw [ofPath]
  by_cases hempty : path.toList = []
  · rw [if_pos hempty]
    exact ⟨fun part hpart => absurd hpart List.not_mem_nil, List.cons_ne_nil _ _ ∘ Eq.symm⟩
  · rw [if_neg hempty]
    refine ⟨fun part hpart => ?_, fun hblank => hempty ?_⟩
    · obtain ⟨cs, hcs, rfl⟩ := List.mem_map.mp hpart
      rw [String.toList_ofList]
      exact not_mem_of_mem_splitAtChar hcs
    · -- a single empty part comes from no path but the empty one
      obtain ⟨cs, hsplit, hcs⟩ := List.map_eq_singleton_iff.mp hblank
      have hnil := congrArg String.toList hcs
      rw [String.toList_ofList] at hnil
      rw [← joinWithChar_splitAtChar '/' path.toList, hsplit, hnil]
      rfl

/-- **Paths stand for plain namespaces.** A namespace is shown as its parts with a slash between neighbours.
    Every path is that of the namespace read from it. A namespace is read back from its path exactly if no
    part holds a slash and it is not a single empty part, so two such namespaces of one path are equal. -/
theorem paths_stand_for_plain_namespaces (path : String) (ns ns' : Namespace) :
    ns.path = "/".intercalate ns.parts ∧
    (ofPath path).path = path ∧
    (ofPath ns.path = ns ↔ ns.IsPlain) ∧
    (ns.IsPlain → ns'.IsPlain → ns.path = ns'.path → ns = ns') := by
  refine ⟨ns.path_eq_intercalate, path_ofPath path, ⟨fun hback => ?_, IsPlain.ofPath_path⟩, ?_⟩
  · rw [← hback]
    exact isPlain_ofPath ns.path
  · intro h h' hpath
    rw [← h.ofPath_path, hpath, h'.ofPath_path]

/-- A namespace with empty parts at both ends and in the middle, and two that differ in the place of one. -/
theorem paths_stand_for_plain_namespaces_gaps :
    Namespace.path ⟨["", "demo", "", "bbb", ""]⟩ = "/demo//bbb/" ∧
      ofPath "/demo//bbb/" = ⟨["", "demo", "", "bbb", ""]⟩ ∧
      Namespace.path ⟨["", "demo"]⟩ ≠ Namespace.path ⟨["demo", ""]⟩ := by
  have hgaps : IsPlain ⟨["", "demo", "", "bbb", ""]⟩ := ⟨by decide, by decide⟩
  have hfront : IsPlain ⟨["", "demo"]⟩ := ⟨by decide, by decide⟩
  have hback : IsPlain ⟨["demo", ""]⟩ := ⟨by decide, by decide⟩
  refine ⟨by decide, ?_, fun hpath => ?_⟩
  · exact (paths_stand_for_plain_namespaces "" ⟨["", "demo", "", "bbb", ""]⟩ ⟨[]⟩).2.2.1.mpr hgaps
  · have hsame := (paths_stand_for_plain_namespaces "" ⟨["", "demo"]⟩ ⟨["demo", ""]⟩).2.2.2 hfront hback hpath
    exact absurd hsame (by decide)

/-- A single empty part is lost. -/
example : ofPath (Namespace.path ⟨[""]⟩) = ⟨[]⟩ := by decide

end Message.Namespace

end LiveMedia
