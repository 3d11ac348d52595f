import Mathlib.Tactic

/-!
# Files with buffered writes

A file to which chunks are appended through a handle that says so before the bytes are there: a
chunk is taken into a buffer, and the buffer is written when the next one comes or when the file is
flushed.  A write that fails leaves the file with as much of what was to be written as the
environment says.

* `File`, `Outcome`, `writeAll`, `flush`: the operations;
* `File.total`: what has been taken, written or not;
* `Outcome.Spares`: a failure that loses nothing of it and adds nothing;
* `total_writeAll`, `flush_ok`: what the operations make of it.
-/

namespace BufferedFile

variable {α : Type}

structure File (α : Type) where
  onDisk : List α
  inFlight : List α
  deriving DecidableEq, Repr

/-- Success, or a failure after so many of the pending items. -/
inductive Outcome
  | ok
  | error (written : ℕ)
  deriving DecidableEq, Repr

namespace File

def empty : File α := ⟨[], []⟩

/-- All that has been taken. -/
def total (file : File α) : List α := file.onDisk ++ file.inFlight

/-- The chunk is taken after what is pending has been written. -/
def writeAll (file : File α) (chunk : List α) : Outcome → File α × Bool
  | .ok => (⟨file.total, chunk⟩, true)
  | .error written => (⟨file.onDisk ++ (file.inFlight ++ chunk).take written, []⟩, false)

def flush (file : File α) : Outcome → File α × Bool
  | .ok => (⟨file.total, []⟩, true)
  | .error written => (⟨file.onDisk ++ file.inFlight.take written, []⟩, false)

end File

/-- A failure just writes what was pending, and nothing of the chunk that comes with it. -/
def Outcome.Spares (file : File α) : Outcome → Prop
  | .ok => True
  | .error written => written = file.inFlight.length

variable {file : File α} {outcome : Outcome}

theorem total_writeAll_ok (chunk : List α) : (file.writeAll chunk .ok).1.total = file.total ++ chunk := rfl

theorem total_writeAll_error {written : ℕ} (chunk : List α) (h : Outcome.Spares file (.error written)) :
    (file.writeAll chunk (.error written)).1.total = file.total := by
  have hwritten : written = file.inFlight.length := h
  rw [File.total, File.writeAll, hwritten, List.take_left, List.append_nil]
  rfl

/-- A spared file has taken the chunk, or is as it was. -/
theorem total_writeAll (chunk : List α) (h : outcome.Spares file) :
    (file.writeAll chunk outcome).1.total =
      file.total ++ (if (file.writeAll chunk outcome).2 = true then chunk else []) := by
  cases outcome with
  | ok => exact total_writeAll_ok chunk
  | error written =>
    rw [total_writeAll_error chunk h, File.writeAll, if_neg Bool.false_ne_true, List.append_nil]

theorem flush_ok : file.flush .ok = (⟨file.total, []⟩, true) := rfl

end BufferedFile
