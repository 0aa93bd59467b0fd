/-
# LocalPlatform.Relay.RequestBody — the bodies `postEvent` takes for one JSON text.

A request body is to be one JSON object and nothing behind it.  What stands behind the first value is
left to `Decoder.More`, which is a question about the inside of an array or an object: a closing bracket
means no more, and so does a reader that fails.  `decodes_iff` says for which bodies that makes no
difference.
-/
import LocalPlatform.Relay.Ingest
import Mathlib.Data.List.TakeWhile

namespace LocalPlatform.Relay.Ingest

open Codec Codec.Json

/-- **One request**: the whole body is within the bound and is one JSON object, white space around it
allowed, whose members are fields of a request and hold what their fields take. -/
def OneRequest (body : Bytes) : Prop :=
  body.length ≤ maxBodyBytes ∧ ∃ ms, whole maxNestingDepth body = some (.object ms) ∧
    (decodeMembers true postEventFields ⟨[], [], [], []⟩ ms).isSome = true

/-- The body is past the decode stage: neither malformed nor too large. -/
def Decodes (decodeError body : Bytes) : Prop := ∃ req, decodeRequest decodeError body = .ok req

/-- The decoder reads `t` into a request and has seen `rest` behind it. -/
def Holds (body : Bytes) (t : Text) (rest : Bytes) : Prop :=
  readValue body = .value t rest ∧ (decodeInto true postEventFields ⟨[], [], [], []⟩ t).isSome = true

/-- The next token closes an array or an object. -/
def closes (rest : Bytes) : Bool :=
  match skipSpace rest with
  | [] => false
  | c :: _ => c == 0x5d || c == 0x7d

/-- **The bodies that slip through**: a bare `null`, a closing bracket behind the value, and more octets
than the bound behind nothing but white space. -/
def Slips (body : Bytes) : Prop := ∃ t rest, Holds body t rest ∧
  (closes rest = true ∨ (skipSpace rest = [] ∧ (t = .null ∨ maxBodyBytes < body.length)))

theorem more_eq_false {rest : Bytes} : more rest = false ↔ closes rest = true ∨ skipSpace rest = [] := by
  unfold more closes
  cases skipSpace rest with
  | nil => simp
  | cons c cs =>
      simp only [bne, Bool.and_eq_false_iff, Bool.not_eq_false', Bool.or_eq_true, reduceCtorEq, or_false]

theorem skipSpace_eq_nil {rest : Bytes} : skipSpace rest = [] ↔ rest.all isSpace = true := by
  simp [skipSpace, List.dropWhile_eq_nil_iff]

theorem Holds.unique {body rest rest' : Bytes} {t t' : Text} (h : Holds body t rest) (h' : Holds body t' rest') :
    t = t' ∧ rest = rest' := by
  injection h.1.symm.trans h'.1 with ht hrest
  exact ⟨ht, hrest⟩

/-- What passes is a value that decodes, with nothing behind it that `More` calls more. -/
theorem decodes_iff_holds {decodeError body : Bytes} :
    Decodes decodeError body ↔ ∃ t rest, Holds body t rest ∧ more rest = false := by
  unfold Decodes decodeRequest Holds
  cases readValue body with
  | tooLarge => simp
  | malformed => simp
  | value t rest =>
      cases hdecode : decodeInto true postEventFields ⟨[], [], [], []⟩ t with
      | none =>
          simp only [hdecode]
          refine iff_of_false (by simp) ?_
          rintro ⟨t', rest', ⟨heq, hsome⟩, _⟩
          injection heq with ht _
          rw [← ht, hdecode] at hsome
          exact absurd hsome (by simp)
      | some req =>
          simp only [hdecode]
          -- what is behind the text decides, as `dec.More` sees it
          cases hmore : more rest with
          | true =>
              refine iff_of_false (by simp) ?_
              rintro ⟨t', rest', ⟨heq, _⟩, hfalse⟩
              injection heq with _ hrest
              rw [← hrest, hmore] at hfalse
              exact absurd hfalse (by simp)
          | false => exact iff_of_true ⟨req, by simp⟩ ⟨t, rest, ⟨rfl, by simp [hdecode]⟩, hmore⟩

/-- Within the bound the reader sees the whole body. -/
theorem readValue_of_le {body rest : Bytes} {t : Text} (h : body.length ≤ maxBodyBytes) :
    readValue body = .value t rest ↔ first maxNestingDepth body = some (t, rest) := by
  have hover : ¬ maxBodyBytes < body.length := by omega
  rw [readValue, List.take_of_length_le h]
  simp only [hover, false_and, if_false]
  cases first maxNestingDepth body with
  | none => simp
  | some p => simp [Prod.ext_iff]

theorem oneRequest_iff {body : Bytes} : OneRequest body ↔
    body.length ≤ maxBodyBytes ∧ ∃ ms rest, Holds body (.object ms) rest ∧ skipSpace rest = [] := by
  refine and_congr_right fun hle => ?_
  constructor
  · rintro ⟨ms, hwhole, hdecode⟩
    unfold whole at hwhole
    split at hwhole
    · exact absurd hwhole (by simp)
    next t rest hfirst =>
    split at hwhole
    · next hspace =>
      obtain rfl := Option.some.inj hwhole
      exact ⟨ms, rest, ⟨(readValue_of_le hle).mpr hfirst, hdecode⟩, skipSpace_eq_nil.mpr hspace⟩
    · exact absurd hwhole (by simp)
  · rintro ⟨ms, rest, ⟨hread, hdecode⟩, hspace⟩
    refine ⟨ms, ?_, hdecode⟩
    rw [whole, (readValue_of_le hle).mp hread]
    exact if_pos (skipSpace_eq_nil.mp hspace)

/-- **A body passes exactly when it is one request, unless it slips through.** -/
theorem decodes_iff (decodeError body : Bytes) : (Decodes decodeError body ↔ OneRequest body) ↔ ¬ Slips body := by
  rw [decodes_iff_holds, oneRequest_iff]
  constructor
  · rintro hiff ⟨t, rest, hholds, hslip⟩
    have hmore : more rest = false := more_eq_false.mpr (hslip.imp_right And.left)
    obtain ⟨hle, ms, rest', hobject, hspace⟩ := hiff.mp ⟨t, rest, hholds, hmore⟩
    obtain ⟨rfl, rfl⟩ := hholds.unique hobject
    -- a slip is a closing bracket behind the text, `null` for the request, or a body that is too long
    rcases hslip with hcloses | ⟨_, hnull | hover⟩
    · rw [closes, hspace] at hcloses
      exact absurd hcloses (by simp)
    · exact absurd hnull (by simp)
    · omega
  · intro hslips
    constructor
    · rintro ⟨t, rest, hholds, hmore⟩
      have hopen : ¬ closes rest = true := fun h => hslips ⟨t, rest, hholds, Or.inl h⟩
      have hspace : skipSpace rest = [] := (more_eq_false.mp hmore).resolve_left hopen
      have hle : ¬ maxBodyBytes < body.length := fun h => hslips ⟨t, rest, hholds, Or.inr ⟨hspace, Or.inr h⟩⟩
      refine ⟨by omega, ?_⟩
      cases t with
      | object ms => exact ⟨ms, rest, hholds, hspace⟩
      | null => exact absurd ⟨_, rest, hholds, Or.inr ⟨hspace, Or.inl rfl⟩⟩ hslips
      | scalar raw => exact absurd hholds.2 (by simp [decodeInto])
    · rintro ⟨_, ms, rest, hholds, hspace⟩
      exact ⟨.object ms, rest, hholds, more_eq_false.mpr (Or.inr hspace)⟩

/-- **An object with a bracket behind it passes**, and it is no JSON text. -/
theorem not_decodes_trailing_bracket : ¬ ∀ decodeError body : Bytes, Decodes decodeError body ↔ OneRequest body := by
  intro hall
  have hholds : Holds (ascii "\x7b\x7d]") (.object []) (ascii "]") :=
    ⟨by decide, rfl⟩
  have hpass : Decodes [] (ascii "\x7b\x7d]") := decodes_iff_holds.mpr ⟨_, _, hholds, by decide⟩
  obtain ⟨_, ms, rest, hobject, hspace⟩ := oneRequest_iff.mp ((hall _ _).mp hpass)
  obtain ⟨_, rfl⟩ := hholds.unique hobject
  exact absurd hspace (by decide)

end LocalPlatform.Relay.Ingest
