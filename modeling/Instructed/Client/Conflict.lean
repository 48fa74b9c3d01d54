import Instructed.Client.RoundTrip

/-!
# Version conflicts through the client

`mapPgError` (`errors/map-pg-error.ts`) makes an error class of an SQLSTATE, and reads the versions of a
conflict from the text of its message, whichever text the procedure put there.

* `parseWrongExpectedVersion`: the first match of `/actual\s+(-?\d+),\s*expected\s+(-?\d+)/`;
* `mapPgError`: the class of an error, with what it carries;
* `firstMatch_conflict`, `firstMatch_between`: what is read from the two messages;
* `conflict_versions`: **a conflict carries the stream's version and the expected one**, unless the stream
  is missing: then it carries what its name reads as.
-/

namespace Instructed.Client

open Sql Relational Numbering Aggregate

deriving instance DecidableEq for ClientError

/-! ## The message -/

/-- `\s`. -/
def isSpace (c : Char) : Bool :=
  c.toNat ∈ [9, 10, 11, 12, 13, 32, 160, 5760, 8232, 8233, 8239, 8287, 12288, 65279] ∨
    8192 ≤ c.toNat ∧ c.toNat ≤ 8202

/-- The text, and what follows it. -/
def matchText : List Char → List Char → Option (List Char)
  | [], cs => some cs
  | t :: ts, c :: cs => if t = c then matchText ts cs else none
  | _ :: _, [] => none

/-- `-?\d+`, as a `BigInt`, and what follows it. -/
def matchInt : List Char → Option (ℤ × List Char)
  | '-' :: cs => (decimal? (cs.takeWhile Char.isDigit)).map fun n => (-n, cs.dropWhile Char.isDigit)
  | cs => (decimal? (cs.takeWhile Char.isDigit)).map fun n => (n, cs.dropWhile Char.isDigit)

/-- `\s+-?\d+`. -/
def matchSpacedInt : List Char → Option (ℤ × List Char)
  | c :: cs => if isSpace c then matchInt (cs.dropWhile isSpace) else none
  | [] => none

/-- The pattern, at the head of the text. No part of it can match what the part behind it begins with, so
    that it never steps back. -/
def matchVersions (cs : List Char) : Option (ℤ × ℤ) := do
  let cs ← matchText "actual".toList cs
  let (actual, cs) ← matchSpacedInt cs
  let cs ← matchText ",".toList cs
  let cs ← matchText "expected".toList (cs.dropWhile isSpace)
  let (expected, _) ← matchSpacedInt cs
  return (actual, expected)

/-- The first match in the text. -/
def firstMatch : List Char → Option (ℤ × ℤ)
  | [] => none
  | c :: cs => (matchVersions (c :: cs)).or (firstMatch cs)

/-- `parseWrongExpectedVersion`: the actual and the expected version. -/
def parseWrongExpectedVersion (message : String) : Option (ℤ × ℤ) := firstMatch message.toList

/-! ## The classes -/

/-- `MapPgErrorContext`. -/
structure MapPgErrorContext where
  streamUuid : Option String
  subscriptionName : Option String
  sourceUuid : Option String
  partitionKey : Option String
  eventNumber : Option ℤ

/-- The subclasses of `InstructedError`, with what they carry beside the message and the code. -/
inductive InstructedError where
  | wrongExpectedVersion (versions : Option (ℤ × ℤ))
  | streamExists (streamUuid : Option String)
  | streamNotFound (streamUuid : Option String)
  | duplicateEvent
  | reservedStreamUuid (streamUuid : Option String)
  | snapshotNotFound (sourceUuid : Option String)
  | subscriptionNotFound (streamUuid subscriptionName : Option String)
  | subscriptionLeaseLost (streamUuid subscriptionName : Option String)
  | workItemLeaseLost (streamUuid subscriptionName partitionKey : Option String) (eventNumber : Option ℤ)
  | invalidParameterValue
  deriving DecidableEq, Repr

/-- `mapPgError`. Other errors pass as they are. -/
def mapPgError (err : SqlError) (ctx : MapPgErrorContext) : Option InstructedError :=
  match err.sqlstate with
  | .IS001 => some (.wrongExpectedVersion (parseWrongExpectedVersion err.message))
  | .IS002 => some (.streamExists ctx.streamUuid)
  | .IS003 => some (.streamNotFound ctx.streamUuid)
  | .IS004 => some .duplicateEvent
  | .IS005 => some (.reservedStreamUuid ctx.streamUuid)
  | .IS010 => some (.snapshotNotFound ctx.sourceUuid)
  | .IS020 => some (.subscriptionNotFound ctx.streamUuid ctx.subscriptionName)
  | .IS022 => some (.subscriptionLeaseLost ctx.streamUuid ctx.subscriptionName)
  | .IS030 => some
      (.workItemLeaseLost ctx.streamUuid ctx.subscriptionName ctx.partitionKey ctx.eventNumber)
  | .invalidParameterValue => some .invalidParameterValue
  | .invalidTextRepresentation | .numericValueOutOfRange | .notNullViolation | .uniqueViolation
  | .checkViolation => none

/-! ## What is read from the messages -/

section Match

variable {cs xs rest : List Char} {c : Char}

theorem firstMatch_cons_of_ne (h : c ≠ 'a') : firstMatch (c :: cs) = firstMatch cs := by
  have hnone : matchVersions (c :: cs) = none := by
    show (matchText ('a' :: _) (c :: cs) >>= _) = none
    rw [matchText, if_neg (Ne.symm h)]
    rfl
  rw [firstMatch, hnone, Option.none_or]

/-- No match begins in the text, whatever follows it. -/
def quiet : List Char → Bool
  | [] => true
  | ['a'] => false
  | 'a' :: c :: cs => c ≠ 'c' && quiet (c :: cs)
  | _ :: cs => quiet cs

theorem quiet_cons_of_ne (h : c ≠ 'a') : quiet (c :: cs) = quiet cs := by
  cases cs with
  | nil => simp [quiet, h]
  | cons d ds => simp [quiet, h]

theorem firstMatch_quiet (h : quiet xs = true) : firstMatch (xs ++ rest) = firstMatch rest := by
  induction xs with
  | nil => rfl
  | cons x xs ih =>
    by_cases hx : x = 'a'
    · subst hx
      cases xs with
      | nil => simp [quiet] at h
      | cons c cs =>
        simp only [quiet, Bool.and_eq_true, decide_eq_true_eq] at h
        have hnone : matchVersions ('a' :: c :: (cs ++ rest)) = none := by
          show (matchText ('a' :: 'c' :: _) ('a' :: c :: (cs ++ rest)) >>= _) = none
          rw [matchText, if_pos rfl, matchText, if_neg (Ne.symm h.1)]
          rfl
        show (matchVersions ('a' :: c :: (cs ++ rest))).or (firstMatch (c :: cs ++ rest)) = _
        rw [hnone, Option.none_or]
        exact ih h.2
    · rw [quiet_cons_of_ne hx] at h
      rw [List.cons_append, firstMatch_cons_of_ne hx]
      exact ih h

theorem firstMatch_of_not_mem (h : 'a' ∉ xs) : firstMatch xs = none := by
  induction xs with
  | nil => rfl
  | cons x xs ih =>
    simp only [List.mem_cons, not_or] at h
    rw [firstMatch_cons_of_ne (Ne.symm h.1)]
    exact ih h.2

theorem matchText_self (ts : List Char) : matchText ts (ts ++ rest) = some rest := by
  induction ts with
  | nil => rfl
  | cons t ts ih =>
    rw [List.cons_append, matchText, if_pos rfl]
    exact ih

theorem isSpace_of_isDigit (h : c.isDigit = true) : isSpace c = false := by
  have hc : 48 ≤ c.toNat ∧ c.toNat ≤ 57 := Char.isDigit_iff_toNat.mp h
  simp only [isSpace, List.mem_cons, List.not_mem_nil, or_false, decide_eq_false_iff_not]
  omega

theorem ne_minus_of_isDigit (h : c.isDigit = true) : c ≠ '-' := by
  rintro rfl
  exact absurd h (by decide)

theorem matchInt_minus : matchInt ('-' :: cs) =
    (decimal? (cs.takeWhile Char.isDigit)).map fun n => (-(n : ℤ), cs.dropWhile Char.isDigit) := by
  rw [matchInt]

theorem matchInt_of_ne (h : c ≠ '-') : matchInt (c :: cs) =
    (decimal? ((c :: cs).takeWhile Char.isDigit)).map fun n =>
      ((n : ℤ), (c :: cs).dropWhile Char.isDigit) := by
  unfold matchInt
  split
  · rename_i heq
    exact absurd (List.cons.inj heq).1 h
  · rfl

/-- A number is read behind a blank, up to what is no digit. -/
theorem matchSpacedInt_decimal {n : ℕ} (hxs : decimal? xs = some n)
    (hdigits : ∀ c ∈ xs, c.isDigit = true) (hrest : ∀ c ∈ rest.head?, c.isDigit = false) :
    matchSpacedInt (' ' :: (xs ++ rest)) = some ((n : ℤ), rest) := by
  have htake : rest.takeWhile Char.isDigit = [] ∧ rest.dropWhile Char.isDigit = rest := by
    cases rest with
    | nil => exact ⟨rfl, rfl⟩
    | cons c cs =>
      have hc := hrest c rfl
      simp [hc]
  cases xs with
  | nil => simp [decimal?] at hxs
  | cons d ds =>
    have hd := hdigits d (by simp)
    show matchInt ((d :: ds ++ rest).dropWhile isSpace) = _
    rw [List.cons_append, List.dropWhile_cons_of_neg (by simp [isSpace_of_isDigit hd]),
      matchInt_of_ne (ne_minus_of_isDigit hd), ← List.cons_append,
      List.takeWhile_append_of_pos hdigits, List.dropWhile_append_of_pos hdigits, htake.1, htake.2,
      List.append_nil, hxs]
    rfl

theorem isDigit_of_mem_toString {n : ℕ} (h : c ∈ (toString n).toList) : c.isDigit = true := by
  rw [show (toString n).toList = Nat.toDigits 10 n from Nat.toList_repr] at h
  exact Nat.isDigit_of_mem_toDigits (by omega) (by omega) h

theorem matchVersions_conflict (n v : ℕ) : matchVersions ("actual".toList ++ ' ' ::
    ((toString n).toList ++ (",".toList ++ ' ' :: ("expected".toList ++ ' ' :: (toString v).toList)))) =
      some ((n : ℤ), (v : ℤ)) := by
  have hactual : matchSpacedInt (' ' :: ((toString n).toList ++ (",".toList ++ ' ' ::
      ("expected".toList ++ ' ' :: (toString v).toList)))) =
        some ((n : ℤ), ",".toList ++ ' ' :: ("expected".toList ++ ' ' :: (toString v).toList)) :=
    matchSpacedInt_decimal (decimal?_toString n) (fun _ => isDigit_of_mem_toString) (by simp)
  have hexpected : matchSpacedInt (' ' :: (toString v).toList) = some ((v : ℤ), []) := by
    have h : matchSpacedInt (' ' :: ((toString v).toList ++ [])) = some ((v : ℤ), []) :=
      matchSpacedInt_decimal (decimal?_toString v) (fun _ => isDigit_of_mem_toString) (by simp)
    rwa [List.append_nil] at h
  have hskip : ∀ xs, (' ' :: ("expected".toList ++ xs)).dropWhile isSpace = "expected".toList ++ xs := by
    intro xs
    rw [List.dropWhile_cons_of_pos (by decide)]
    show ('e' :: _).dropWhile isSpace = _
    exact List.dropWhile_cons_of_neg (by decide)
  unfold matchVersions
  rw [matchText_self]
  simp only [Option.bind_eq_bind, Option.bind_some]
  rw [hactual]
  simp only [Option.bind_some]
  rw [matchText_self, Option.bind_some, hskip, matchText_self, Option.bind_some, hexpected]
  rfl

/-- The versions are read from the message of a conflict. -/
theorem parse_conflict (n v : ℕ) : parseWrongExpectedVersion
    ("append_to_stream: wrong expected version: actual " ++ toString n ++ ", expected " ++ toString v) =
      some ((n : ℤ), (v : ℤ)) := by
  have hlist : ("append_to_stream: wrong expected version: actual " ++ toString n ++ ", expected " ++
      toString v).toList = "append_to_stream: wrong expected version: ".toList ++ ("actual".toList ++ ' ' ::
        ((toString n).toList ++
          (",".toList ++ ' ' :: ("expected".toList ++ ' ' :: (toString v).toList)))) := by
    simp [String.toList_append]
  rw [parseWrongExpectedVersion, hlist, firstMatch_quiet (by decide)]
  show (matchVersions ("actual".toList ++ _)).or _ = _
  rw [matchVersions_conflict]
  rfl

/-! A match does not reach into a text that begins with a blank and a `d`. -/

theorem matchText_between {ts : List Char} (h : ' ' ∉ ts) :
    matchText ts (cs ++ ' ' :: xs) = (matchText ts cs).map (· ++ ' ' :: xs) := by
  induction ts generalizing cs with
  | nil => rfl
  | cons t ts ih =>
    simp only [List.mem_cons, not_or] at h
    cases cs with
    | nil =>
      show (if t = ' ' then matchText ts xs else none) = none
      exact if_neg (Ne.symm h.1)
    | cons c cs =>
      rw [List.cons_append, matchText, matchText]
      split_ifs
      · exact ih h.2
      · rfl

theorem matchInt_between : matchInt (cs ++ ' ' :: xs) =
    (matchInt cs).map fun p => (p.1, p.2 ++ ' ' :: xs) := by
  have htake : ∀ cs : List Char, (cs ++ ' ' :: xs).takeWhile Char.isDigit = cs.takeWhile Char.isDigit := by
    intro cs
    have hblank : (' ' :: xs).takeWhile Char.isDigit = [] := List.takeWhile_cons_of_neg (by decide)
    rw [List.takeWhile_append, hblank, List.append_nil]
    split_ifs with hlen
    · exact ((List.takeWhile_prefix _).eq_of_length hlen).symm
    · rfl
  have hdrop : ∀ cs : List Char, (cs ++ ' ' :: xs).dropWhile Char.isDigit =
      cs.dropWhile Char.isDigit ++ ' ' :: xs := by
    intro cs
    have hblank : (' ' :: xs).dropWhile Char.isDigit = ' ' :: xs := List.dropWhile_cons_of_neg (by decide)
    rw [List.dropWhile_append, hblank]
    split_ifs with hnil
    · rw [List.isEmpty_iff.mp hnil, List.nil_append]
    · rfl
  cases cs with
  | nil =>
    rw [List.nil_append, matchInt_of_ne (by decide), List.takeWhile_cons_of_neg (by decide)]
    rfl
  | cons c cs =>
    by_cases hc : c = '-'
    · subst hc
      rw [List.cons_append, matchInt_minus, matchInt_minus, Option.map_map, htake, hdrop]
      rfl
    · rw [List.cons_append, matchInt_of_ne hc, matchInt_of_ne hc, Option.map_map, ← List.cons_append,
        htake, hdrop]
      rfl

/-- The blanks at the head, up to the text behind. -/
theorem dropWhile_between : cs.dropWhile isSpace = [] ∧
      (cs ++ ' ' :: 'd' :: xs).dropWhile isSpace = 'd' :: xs ∨
    (cs ++ ' ' :: 'd' :: xs).dropWhile isSpace = cs.dropWhile isSpace ++ ' ' :: 'd' :: xs := by
  rw [List.dropWhile_append]
  split_ifs with hnil
  · refine Or.inl ⟨List.isEmpty_iff.mp hnil, ?_⟩
    rw [List.dropWhile_cons_of_pos (by decide), List.dropWhile_cons_of_neg (by decide)]
  · exact Or.inr rfl

theorem matchSpacedInt_between : matchSpacedInt (cs ++ ' ' :: 'd' :: xs) =
    (matchSpacedInt cs).map fun p => (p.1, p.2 ++ ' ' :: 'd' :: xs) := by
  have hnone : matchInt ('d' :: xs) = none := by
    rw [matchInt_of_ne (by decide), List.takeWhile_cons_of_neg (by decide)]
    rfl
  cases cs with
  | nil =>
    show matchInt (('d' :: xs).dropWhile isSpace) = none
    rw [List.dropWhile_cons_of_neg (by decide), hnone]
  | cons c cs =>
    rw [List.cons_append, matchSpacedInt, matchSpacedInt]
    split_ifs
    · rcases dropWhile_between with ⟨hnil, hd⟩ | hd
      · rw [hd, hnil, hnone]
        rfl
      · rw [hd, matchInt_between]
    · rfl

theorem matchExpected_between : matchText "expected".toList ((cs ++ ' ' :: 'd' :: xs).dropWhile isSpace) =
    (matchText "expected".toList (cs.dropWhile isSpace)).map (· ++ ' ' :: 'd' :: xs) := by
  rcases dropWhile_between with ⟨hnil, hd⟩ | hd
  · rw [hd, hnil]
    rfl
  · rw [hd, matchText_between (by decide)]

theorem matchVersions_between : matchVersions (cs ++ ' ' :: 'd' :: xs) = matchVersions cs := by
  unfold matchVersions
  rw [matchText_between (by decide)]
  cases matchText "actual".toList cs with
  | none => rfl
  | some cs =>
    show (matchSpacedInt (cs ++ _) >>= _) = (matchSpacedInt cs >>= _)
    rw [matchSpacedInt_between]
    cases matchSpacedInt cs with
    | none => rfl
    | some p =>
      show (matchText ",".toList (p.2 ++ _) >>= _) = (matchText ",".toList p.2 >>= _)
      rw [matchText_between (by decide)]
      cases matchText ",".toList p.2 with
      | none => rfl
      | some cs =>
        show (matchText "expected".toList ((cs ++ _).dropWhile isSpace) >>= _) =
          (matchText "expected".toList (cs.dropWhile isSpace) >>= _)
        rw [matchExpected_between]
        cases matchText "expected".toList (cs.dropWhile isSpace) with
        | none => rfl
        | some cs =>
          show (matchSpacedInt (cs ++ _) >>= _) = (matchSpacedInt cs >>= _)
          rw [matchSpacedInt_between]
          cases matchSpacedInt cs <;> rfl

theorem firstMatch_between (h : 'a' ∉ xs) : firstMatch (cs ++ ' ' :: 'd' :: xs) = firstMatch cs := by
  induction cs with
  | nil =>
    apply firstMatch_of_not_mem
    simpa using h
  | cons c cs ih =>
    show (matchVersions (c :: cs ++ _)).or (firstMatch (cs ++ _)) = _
    rw [matchVersions_between, ih]
    rfl

/-- From the message about a missing stream the stream's own name is read. -/
theorem parse_missing (u : String) (v : ℕ) :
    parseWrongExpectedVersion (streamMissingAt u v).message = parseWrongExpectedVersion u := by
  have hlist : (streamMissingAt u v).message.toList = "append_to_stream: stream ".toList ++ (u.toList ++
      ' ' :: 'd' :: ("oes not exist (expected version ".toList ++ ((toString v).toList ++ [')']))) := by
    simp [streamMissingAt, String.toList_append]
  have hdigits : 'a' ∉ (toString v).toList := fun h => absurd (isDigit_of_mem_toString h) (by decide)
  rw [parseWrongExpectedVersion, hlist, firstMatch_quiet (by decide), firstMatch_between]
  · rfl
  · simp only [List.mem_append, not_or]
    exact ⟨by decide, hdigits, by decide⟩

end Match

/-! ## The result -/

section Result

variable {u : String} {expected : Expected} {events : List NewEvent} {ids : ℕ → String}
  {now : Timestamp} {db : Db} {e : SqlError} {ctx : MapPgErrorContext} {versions : Option (ℤ × ℤ)}

/-- A conflict is found by the check of the expected version. -/
theorem appendCall_conflict {a : AppendArgs} {log : List Instructed.RecordedEvent}
    (h : appendCall now a log = .error e) (hstate : e.sqlstate = .IS001) :
    ∃ r, validateAppend a = .ok r ∧ checkExpected log r.streamUuid r.expected = .error e := by
  rcases appendCall_error h with hr | ⟨r, hr, hcheck | hes | rfl⟩
  · rcases validateAppend_sqlstate hr with hother | hother
    · simp [hstate] at hother
    · simp [hstate] at hother
  · exact ⟨r, hr, hcheck⟩
  · rcases newEvents_sqlstate hes with hother | hother
    · simp [hstate] at hother
    · simp [hstate] at hother
  · cases hstate

/-- What a conflict says of the stream. -/
theorem checkExpected_conflict {x : ExpectedVersion} {log : List Instructed.RecordedEvent}
    (h : checkExpected log u x = .error e) (hstate : e.sqlstate = .IS001) :
    ∃ v, x = .exact v ∧ (onStream u log).length ≠ v ∧
      parseWrongExpectedVersion e.message = if onStream u log = [] then parseWrongExpectedVersion u
        else some (((onStream u log).length : ℤ), (v : ℤ)) := by
  cases x with
  | any => cases h
  | noStream =>
    simp only [checkExpected] at h
    split_ifs at h
    obtain rfl := Except.error.inj h
    cases hstate
  | streamExists =>
    simp only [checkExpected] at h
    split_ifs at h
    obtain rfl := Except.error.inj h
    cases hstate
  | exact v =>
    simp only [checkExpected] at h
    split_ifs at h with hnil hv hlen
    · obtain rfl := Except.error.inj h
      refine ⟨v, rfl, ?_, ?_⟩
      · rw [hnil]
        exact Ne.symm hv
      · rw [if_pos hnil]
        exact parse_missing u v
    · obtain rfl := Except.error.inj h
      exact ⟨v, rfl, hlen, by rw [if_neg hnil]; exact parse_conflict _ v⟩

/-- **A conflict carries the versions**: that of the stream and that which was expected. When the stream is
    missing it carries what the stream's own name reads as. -/
theorem conflict_versions (hdb : db.Reachable)
    (h : (appendToStream u expected events ids now db).1 = .error (.sql e))
    (hconflict : mapPgError e ctx = some (.wrongExpectedVersion versions)) :
    ∃ v : ℕ, expected = .exact v ∧ (onStream u db.store.log).length ≠ v ∧
      versions = if onStream u db.store.log = [] then parseWrongExpectedVersion u
        else some (((onStream u db.store.log).length : ℤ), (v : ℤ)) := by
  obtain ⟨hstate, hversions⟩ :
      e.sqlstate = .IS001 ∧ parseWrongExpectedVersion e.message = versions := by
    unfold mapPgError at hconflict
    split at hconflict <;> simp_all
  have hne : events ≠ [] := by
    rintro rfl
    cases h
  rw [appendToStream_eq hne] at h
  have herror : (db.append now (appendArgs u expected events ids)).1 = .error e := by
    split at h
    · cases h
    · rename_i e' he'
      rw [he']
      simpa using h
  obtain ⟨hanswer, -⟩ := hdb.consistent.append_refines (now, appendArgs u expected events ids)
  simp only [dbObject, logObject] at hanswer
  rw [herror] at hanswer
  have hcall : appendCall now (appendArgs u expected events ids) db.store.log = .error e := by
    cases hcall : appendCall now (appendArgs u expected events ids) db.store.log with
    | ok new =>
      rw [hcall] at hanswer
      cases hanswer
    | error e' =>
      rw [hcall] at hanswer
      rw [Except.error.inj hanswer]
  obtain ⟨r, hr, hcheck⟩ := appendCall_conflict hcall hstate
  obtain ⟨v, hx, hlen, hparse⟩ := checkExpected_conflict hcheck hstate
  obtain ⟨hru, hexpected, -⟩ := validateAppend_ok hr
  obtain rfl : u = r.streamUuid := Option.some.inj hru
  refine ⟨v, ?_, hlen, hversions ▸ hparse⟩
  rw [hx] at hexpected
  cases expected with
  | exact version =>
    replace hexpected : (if version < 0 then raise .invalidParameterValue
        "append_to_stream: p_expected_version must be a non-negative integer for 'exact'"
      else .ok (.exact version.toNat)) = Except.ok (ExpectedVersion.exact v) := hexpected
    split_ifs at hexpected with hneg
    · cases hexpected
    · obtain rfl := ExpectedVersion.exact.inj (Except.ok.inj hexpected)
      rw [Int.toNat_of_nonneg (by omega)]
  | any => cases hexpected
  | noStream => cases hexpected
  | streamExists => cases hexpected

/-- The stream `account-1` has two events. -/
def sampleConflict : Db :=
  (appendToStream "account-1" .noStream sampleEvents
    (fun _ => "56565656-5656-5656-5656-565656565656") 10 Db.install).2

theorem conflict_versions_sampleConflict : ∃ e : SqlError,
    (appendToStream "account-1" (.exact 5) sampleEvents
      (fun _ => "78787878-7878-7878-7878-787878787878") 20 sampleConflict).1 = .error (.sql e) ∧
    mapPgError e ⟨some "account-1", none, none, none, none⟩ =
      some (.wrongExpectedVersion (some (2, 5))) ∧
    ∃ v : ℕ, Expected.exact 5 = .exact v ∧ (onStream "account-1" sampleConflict.store.log).length ≠ v ∧
      some (2, 5) = if onStream "account-1" sampleConflict.store.log = [] then
          parseWrongExpectedVersion "account-1"
        else some (((onStream "account-1" sampleConflict.store.log).length : ℤ), (v : ℤ)) := by
  have hcall : (appendToStream "account-1" (.exact 5) sampleEvents
      (fun _ => "78787878-7878-7878-7878-787878787878") 20 sampleConflict).1 = .error (.sql
        ⟨.IS001, "append_to_stream: wrong expected version: actual 2, expected 5"⟩) := by
    decide +kernel
  have hmapped : mapPgError ⟨.IS001, "append_to_stream: wrong expected version: actual 2, expected 5"⟩
      ⟨some "account-1", none, none, none, none⟩ = some (.wrongExpectedVersion (some (2, 5))) := by
    decide +kernel
  exact ⟨_, hcall, hmapped, conflict_versions (reachable_appendToStream .install) hcall hmapped⟩

/-- A missing stream's name is read as versions. -/
example : mapPgError (streamMissingAt "actual 7, expected 8" 3) ⟨none, none, none, none, none⟩ =
    some (.wrongExpectedVersion (some (7, 8))) := by
  decide +kernel

end Result

end Instructed.Client
