import YieldMachine.Exchange.Display
import YieldMachine.Exchange.Document
import YieldMachine.Machine.Adapter

/-!
# Asking adapters by documents

A document names an adapter, what it is made over, and what is asked of it in turn.  The
answers are rows of two documents; a request that stops is answered as a failure, and the
others go on.
-/

namespace YieldMachine

/-- A request to an adapter. -/
inductive RowRequest where
  | hasNext
  | next
  /-- all rows that are left, sorted by their keys or in the order they come in -/
  | drain (sorted : Bool)
  | skip (rows : Nat)
  deriving DecidableEq, Repr

/-- Reads a request to an adapter. -/
def RowRequest.ofDoc? : Doc → Option RowRequest
  | .text "hasNext" => some .hasNext
  | .text "next" => some .next
  | .text "drain" => some (.drain false)
  | .text "drainSorted" => some (.drain true)
  | .list [.text "skip", n] => return .skip (← n.nat?)
  | _ => none

/-- A key and a value. -/
def rowDoc (row : Doc × Doc) : Doc := .list [row.1, row.2]

/-- What stands for the value that says nothing. -/
def unitDoc : Doc := .record [("unit", .bool true)]

section Answer

variable {σ γ ρ : Type}

/-- Skips rows; a row that stops is skipped as well. -/
def Supply.skip (s : Supply σ γ ρ) : Nat → γ → σ → γ × σ
  | 0, g, m => (g, m)
  | n + 1, g, m =>
    match s.next g m with
    | .ok (_, g) m => s.skip n g m
    | .error _ m => s.skip n g m

/-- Answers a request to an adapter; draining takes at most `fuel` steps. -/
def RowRequest.answer (s : Supply σ γ ρ) (write : ρ → Doc × Doc) (fuel : Nat) (r : RowRequest) :
    γ → Eff σ (Doc × γ) :=
  match r with
  | .hasNext => fun g => do
    let (has, g) ← s.hasNext g
    return (.bool has, g)
  | .next => fun g => do
    let (row, g) ← s.next g
    return (rowDoc (write row), g)
  | .drain sorted => fun g => do
    let (rows, g) ← s.toList fuel g
    let rows := rows.map write
    let rows := if sorted then rows.mergeSort fun a b => a.1.display ≤ b.1.display else rows
    return (.listOf rowDoc rows, g)
  | .skip n => fun g m =>
    let (g, m) := s.skip n g m
    .ok (.text "skipped", g) m

/-- Answers requests to an adapter in turn. -/
def answerRows (s : Supply σ γ ρ) (write : ρ → Doc × Doc) (fuel : Nat) :
    List RowRequest → γ → σ → List Doc
  | [], _, _ => []
  | r :: rs, g, m =>
    match r.answer s write fuel g m with
    | .ok (d, g) m => d :: answerRows s write fuel rs g m
    | .error _ m => .record [("error", .text "runtime")] :: answerRows s write fuel rs g m

end Answer

/-- The types of numbers that are counted, by their names. -/
def countWidths : List (String × IntWidth) :=
  [("int", ⟨64, true⟩), ("int8", ⟨8, true⟩), ("int16", ⟨16, true⟩), ("int64", ⟨64, true⟩),
    ("uint8", ⟨8, false⟩), ("uint16", ⟨16, false⟩)]

/-- Reads an entry of a map. -/
def entry? : Doc → Option (Doc × Doc)
  | .list [key, value] => some (key, value)
  | _ => none

/-- Makes an adapter of a kind over some data and answers requests to it. -/
def answerAdapter (fuel : Nat) (kind : String) (data : Doc) (rs : List RowRequest) :
    Option (List Doc) :=
  let items := data.list?.getD []
  match kind with
  | "slice" =>
    let elements : Vector Doc items.toArray.size := ⟨items.toArray, rfl⟩
    some (answerRows (SliceCursor.supply Doc _) (fun (i, value) => (.nat i, value)) fuel rs
      (.start items.length) elements)
  | "string" => do
    return answerText (bytesOf (← data.text?))
  | "hex" => do
    return answerText (← bytesOfHex? (← data.text?).toList)
  | "chan" =>
    some (answerRows (ChanCursor.supply Unit (.int 0)) (fun (value, ()) => (value, unitDoc)) fuel
      rs (.start items) ())
  | "each" =>
    some (answerRows (Supply.ofItems Unit .null).each (fun (value, ()) => (value, unitDoc)) fuel
      rs items ())
  | "map" => do
    return answerRows (MapCursor.supply Unit Doc Doc) id fuel rs
      (.start (← items.mapM entry?)) ()
  | kind => do
    return answerRows (CountCursor.supply Unit) (fun (n, ()) => (.int n, unitDoc)) fuel rs
      (.start (← countWidths.lookup kind) (← data.int?)) ()
where
  /-- Answers requests to an adapter over a byte string. -/
  answerText (bytes : Bytes) : List Doc :=
    answerRows (TextCursor.supply Unit) (fun (offset, rune) => (.nat offset, .nat rune)) fuel rs
      (.start bytes) ()

end YieldMachine
