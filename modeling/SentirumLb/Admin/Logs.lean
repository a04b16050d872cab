import SentirumLb.Lib.RingBuffer
import SentirumLb.Lib.Slices

/-! # The log buffer

The last log entries are kept in a ring buffer. A query asks for the newest of
them, above a level of severity and with a text in one of their fields.
-/

namespace SentirumLb

namespace Admin

def ringBufferCapacity : ℕ := 1000

structure LogEntry where
  ts : ℕ
  level : String
  message : String
  target : String
  deriving DecidableEq, Repr

abbrev LogBuffer := RingBuffer LogEntry ringBufferCapacity

def levelOrder (level : String) : Option ℕ :=
  if level = "ERROR" then some 0
  else if level = "WARN" then some 1
  else if level = "INFO" then some 2
  else if level = "DEBUG" then some 3
  else if level = "TRACE" then some 4
  else none

namespace LogEntry

/-- An unknown level of the query keeps every entry, and one of the entry counts as `ERROR`. -/
def passesLevel (minLevel : Option String) (e : LogEntry) : Bool :=
  match minLevel.bind levelOrder with
  | some minOrd => !decide (minOrd < (levelOrder e.level).getD 0)
  | none => true

def passesSearch (search : Option String) (e : LogEntry) : Bool :=
  match search.map Text.toAsciiLowercase with
  | some query => [e.level, e.target, e.message].any fun field =>
      (Text.find query.toList (Text.toAsciiLowercase field).toList).isSome
  | none => true

def isHit (minLevel search : Option String) (e : LogEntry) : Bool :=
  e.passesLevel minLevel && e.passesSearch search

end LogEntry

namespace LogBuffer

def new : LogBuffer := RingBuffer.empty

def push (e : LogEntry) (b : LogBuffer) : LogBuffer := RingBuffer.push e b

def recent (limit : ℕ) (minLevel search : Option String) (b : LogBuffer) : List LogEntry :=
  RingBuffer.recent limit (LogEntry.isHit minLevel search) b

def pushAll (es : List LogEntry) : LogBuffer := es.foldl (fun b e => b.push e) new

end LogBuffer

structure LogsQuery where
  limit : Option ℕ
  level : Option String
  search : Option String

def logsHandler (logBuffer : Option LogBuffer) (params : LogsQuery) : List LogEntry :=
  let limit := min (params.limit.getD 100) 1000
  match logBuffer with
  | some buffer => buffer.recent limit params.level params.search
  | none => []

/-! ## What a query returns -/

namespace LogEntry

/-- With a known level of the query, an entry of a known level passes if it is as severe. -/
theorem passesLevel_iff {minLevel : String} {minOrd ord : ℕ} {e : LogEntry}
    (hmin : levelOrder minLevel = some minOrd) (he : levelOrder e.level = some ord) :
    e.passesLevel (some minLevel) = true ↔ ord ≤ minOrd := by
  simp [passesLevel, hmin, he]

theorem passesSearch_iff {query : String} {e : LogEntry} :
    e.passesSearch (some query) = true ↔ ∃ field ∈ [e.level, e.target, e.message],
      (Text.toAsciiLowercase query).toList <:+: (Text.toAsciiLowercase field).toList := by
  simp only [passesSearch, Option.map_some, List.any_eq_true, Option.isSome_iff_ne_none, ne_eq,
    Text.find_eq_none_iff, not_not]

end LogEntry

namespace LogBuffer

theorem newestFirst_pushAll (es : List LogEntry) :
    (pushAll es).newestFirst = es.reverse.take ringBufferCapacity :=
  RingBuffer.newestFirst_foldl_push es

/-- After any pushes, a query returns the newest hits among the last entries, as many as its limit,
exactly when the limit is not zero or there are no hits. -/
theorem recent_pushAll_eq_iff (es : List LogEntry) (limit : ℕ) (minLevel search : Option String) :
    (pushAll es).recent limit minLevel search =
        ((es.reverse.take ringBufferCapacity).filter fun e =>
          e.passesLevel minLevel && e.passesSearch search).take limit ↔
      limit ≠ 0 ∨ ∀ e ∈ es.reverse.take ringBufferCapacity,
        (e.passesLevel minLevel && e.passesSearch search) = false := by
  rw [← newestFirst_pushAll]
  exact RingBuffer.recent_eq_take_iff limit _ _

/-- A query for no entries returns one, also through the handler. -/
theorem logsHandler_limit_zero :
    let e : LogEntry := ⟨0, "INFO", "listening", "sentirum_lb"⟩
    logsHandler (some (pushAll [e])) ⟨some 0, none, none⟩ = (pushAll [e]).recent 0 none none ∧
      (pushAll [e]).recent 0 none none ≠
        (([e].reverse.take ringBufferCapacity).filter fun e =>
          e.passesLevel none && e.passesSearch none).take 0 := by
  intro e
  refine ⟨rfl, ?_⟩
  have hrecent : (pushAll [e]).recent 0 none none = [e] := rfl
  rw [hrecent, List.take_zero]
  exact List.cons_ne_nil e []

end LogBuffer

end Admin

end SentirumLb
