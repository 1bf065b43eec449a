import CompactFont.Font

/-! The data of a font in a FontSet file. A file is split at its first marker, wherever that is: no marker can begin
in the text before it and end in it. So nothing of that text, nor the byte behind the marker, has a part in the font
that is decoded. -/

namespace CompactFont.FontSet

variable {before rest : List UInt8}

/-- The marker has the byte that it begins with nowhere else. -/
theorem initial_not_mem_tail : 0x53 ∉ marker.tail := by decide

/-- A marker that begins in front of another one ends in front of it. -/
theorem not_prefix_of_absent {b : UInt8} (absent : ¬ marker <:+: b :: before) :
    ¬ marker <+: b :: before ++ (marker ++ rest) := by
  rintro ⟨behind, overlap⟩
  rcases List.append_eq_append_iff.1 overlap with ⟨more, ends, _⟩ | ⟨shared, ends, begins⟩
  · exact absent (ends ▸ (List.prefix_append marker more).isInfix)
  · cases shared with
    | nil =>
      rw [List.append_nil] at ends
      exact absent (ends ▸ List.infix_rfl)
    | cons c shared =>
      -- the part that both would share begins a marker, but does not stand at the beginning of the first
      have initial : 0x53 = c := (List.cons.inj begins).1
      have tail : marker.tail = before ++ c :: shared := congrArg List.tail ends
      apply initial_not_mem_tail
      rw [tail, initial]
      exact List.mem_append_right _ (List.mem_cons_self ..)

theorem afterMarker?_append (absent : ¬ marker <:+: before) : afterMarker? (before ++ (marker ++ rest)) = some rest := by
  induction before with
  | nil =>
    have here : marker.isPrefixOf (marker ++ rest) = true := List.isPrefixOf_iff_prefix.2 (List.prefix_append ..)
    exact if_pos here
  | cons b before ih =>
    have later : ¬ marker <:+: before := fun known => absent (List.infix_cons known)
    have elsewhere : ¬ marker.isPrefixOf (b :: (before ++ (marker ++ rest))) = true :=
      fun here => not_prefix_of_absent absent (List.isPrefixOf_iff_prefix.1 here)
    rw [List.cons_append, afterMarker?, if_neg elsewhere]
    exact ih later

theorem afterMarker?_eq_none {file : List UInt8} (absent : ¬ marker <:+: file) : afterMarker? file = none := by
  induction file with
  | nil => rfl
  | cons b file ih =>
    rw [List.infix_cons_iff, not_or] at absent
    rw [afterMarker?, if_neg fun here => absent.1 (List.isPrefixOf_iff_prefix.1 here)]
    exact ih absent.2

/-- A file with a marker has a first one. -/
theorem exists_first_marker {file : List UInt8} (found : marker <:+: file) :
    ∃ before rest, ¬ marker <:+: before ∧ file = before ++ (marker ++ rest) := by
  have nowhere : ¬ marker <:+: [] := by decide
  induction file with
  | nil => exact absurd found nowhere
  | cons b file ih =>
    by_cases here : marker <+: b :: file
    · obtain ⟨rest, same⟩ := here
      exact ⟨[], rest, nowhere, same.symm⟩
    · obtain ⟨before, rest, absent, same⟩ := ih ((List.infix_cons_iff.1 found).resolve_left here)
      refine ⟨b :: before, rest, ?_, congrArg (b :: ·) same⟩
      rw [List.infix_cons_iff, not_or]
      refine ⟨fun begins => here ?_, absent⟩
      rw [same]
      exact begins.trans (List.prefix_append (b :: before) _)

/-- The data of a file with a marker are all that follows it, without the first byte. -/
theorem data_append (absent : ¬ marker <:+: before) :
    (data (before ++ (marker ++ rest))).result = .ok (rest.drop 1) := by
  unfold data
  rw [afterMarker?_append absent]
  rfl

theorem data_eq_error_iff {file : List UInt8} {failure : Failure} :
    (data file).result = .error failure ↔ ¬ marker <:+: file ∧ failure = { fault := .markerNotFound } := by
  by_cases found : marker <:+: file
  · obtain ⟨before, rest, absent, rfl⟩ := exists_first_marker found
    rw [data_append absent]
    exact iff_of_false nofun fun missing => missing.1 found
  · unfold data
    rw [afterMarker?_eq_none found, and_iff_right found, Logged.result_quiet, Except.error.injEq, eq_comm]

theorem result_decode_append (absent : ¬ marker <:+: before) (options : Options) :
    (Font.decode options (before ++ (marker ++ rest))).result =
      (FontFile.read (rest.drop 1) >>= Font.ofFile options).result := by
  rw [Font.decode, Logged.result_bind, data_append absent]
  rfl

/-- A file without a marker is refused, and no other for want of data. The data are what follows the byte behind the
first marker, also if the text in front of it ends like the beginning of a marker or the data hold another; a file that
ends there or one byte later has none. The font is decoded from these data alone, whatever that text and that byte. -/
theorem data_behind_first_marker :
    (∀ file failure, (data file).result = .error failure ↔
      ¬ marker <:+: file ∧ failure = { fault := .markerNotFound }) ∧
    ∀ before, ¬ marker <:+: before →
      (data (before ++ marker)).result = .ok [] ∧
      ∀ separator contents,
        (data (before ++ marker ++ [separator] ++ contents)).result = .ok contents ∧
        ∀ options,
          (Font.decode options (before ++ marker ++ [separator] ++ contents)).result =
            (FontFile.read contents >>= Font.ofFile options).result ∧
          ∀ other byte, ¬ marker <:+: other →
            (Font.decode options (before ++ marker ++ [separator] ++ contents)).result =
              (Font.decode options (other ++ marker ++ [byte] ++ contents)).result := by
  have grouped (before : List UInt8) (separator : UInt8) (contents : List UInt8) :
      before ++ marker ++ [separator] ++ contents = before ++ (marker ++ separator :: contents) := by simp
  refine ⟨fun _ _ => data_eq_error_iff, fun before absent => ⟨?_, fun separator contents => ⟨?_, ?_⟩⟩⟩
  · rw [← List.append_nil (before ++ marker), List.append_assoc]
    exact data_append absent
  · rw [grouped]
    exact data_append absent
  · intro options
    have decoded {front : List UInt8} (byte : UInt8) (absent : ¬ marker <:+: front) :
        (Font.decode options (front ++ marker ++ [byte] ++ contents)).result =
          (FontFile.read contents >>= Font.ofFile options).result := by
      rw [grouped]
      exact result_decode_append absent options
    refine ⟨decoded separator absent, fun other byte missing => ?_⟩
    rw [decoded separator absent, decoded byte missing]

/-- A text that ends with all of a marker but its last byte, and data that begin with a marker. -/
theorem data_behind_first_marker_nested :
    ¬ marker <:+: 0x25 :: marker.dropLast ∧ ¬ marker <:+: [] ∧
      (data (0x25 :: marker.dropLast ++ marker ++ [0x20] ++ (marker ++ [0x0a, 1]))).result = .ok (marker ++ [0x0a, 1]) ∧
      (Font.decode {} (0x25 :: marker.dropLast ++ marker ++ [0x20] ++ (marker ++ [0x0a, 1]))).result =
        (Font.decode {} ([] ++ marker ++ [0x0d] ++ (marker ++ [0x0a, 1]))).result := by
  have absent : ¬ marker <:+: 0x25 :: marker.dropLast := by decide
  have nowhere : ¬ marker <:+: [] := by decide
  have split := (data_behind_first_marker.2 _ absent).2 0x20 (marker ++ [0x0a, 1])
  exact ⟨absent, nowhere, split.1, (split.2 {}).2 [] 0x0d nowhere⟩

end CompactFont.FontSet
