import FrameRing.Log.Event

/-! # What a reader of the log tells apart

Somebody who counts the records of one kind knows their level and how their text starts. No other
event that the ring or its parts report looks the same. -/

namespace FrameRing

/-- The records that a ring's work leaves in the log, as its readers know them. -/
inductive Notice where
  | frame
  | dropped
  | missing
  | exhausted
  | faulted
  deriving DecidableEq, Repr

namespace Notice

def level : Notice → LogLevel
  | .frame => .trace
  | .dropped | .missing => .warn
  | .exhausted => .debug
  | .faulted => .error

def text : Notice → String
  | .frame => "mgmt rx frame of"
  | .dropped => "dropping mgmt rx frame"
  | .missing => "mgmt rx ring reported a completion it cannot produce"
  | .exhausted => "mgmt rx buffer pool exhausted"
  | .faulted => "mgmt rx ring faulted"

end Notice

theorem take_eq_of_prefix_append {α : Type} {text opening rest : List α}
    (h : text <+: opening ++ rest) : text.take opening.length = opening.take text.length := by
  obtain ⟨tail, h⟩ := h
  have hfront := congrArg (List.take (min text.length opening.length)) h
  rcases Nat.le_total text.length opening.length with hle | hle
  · rw [Nat.min_eq_left hle, List.take_left, List.take_append_of_le_length hle] at hfront
    rw [List.take_of_length_le hle, ← hfront]
  · rw [Nat.min_eq_right hle, List.take_left, List.take_append_of_le_length hle] at hfront
    rw [List.take_of_length_le hle, hfront]

namespace LogEvent

def Reads (e : LogEvent) (n : Notice) : Prop :=
  e.level = n.level ∧ n.text.toList <+: e.message.toList

instance (e : LogEvent) (n : Notice) : Decidable (e.Reads n) :=
  inferInstanceAs (Decidable (_ ∧ _))

def notice? : LogEvent → Option Notice
  | .frameDelivered .. => some .frame
  | .frameDropped .. => some .dropped
  | .missingCompletion => some .missing
  | .poolExhausted .. => some .exhausted
  | .ringFaulted .. => some .faulted
  | _ => none

def opening : LogEvent → String
  | .registering .. => "registering srng at "
  | .ringSetUp .. => "mgmt rx ring set up: "
  | .ringMemoryLeaked .. => "failed to free ring memory at "
  | .attached .. => "mgmt rx ring attached "
  | .attachFailed .. => "mgmt rx attach failed after "
  | .ringReleased .. => "mgmt rx ring released "
  | .headNotPublished .. => "failed to publish head pointer "
  | .entryUnreadable .. => "failed to read completed entry "
  | .missingCompletion => "mgmt rx ring reported a completion it cannot produce"
  | .poolExhausted .. => "mgmt rx buffer pool exhausted ("
  | .ringFaulted .. => "mgmt rx ring faulted at read_idx "
  | .frameDelivered .. => "mgmt rx frame of "
  | .frameDropped .. => "dropping mgmt rx frame at "
  | .reapSkipped .. => "mgmt rx reap skipped: "
  | .reapFailed .. => "mgmt rx reap failed: "
  | .bufferUnreadable .. => "failed to read DMA buffer at "
  | .bufferLeaked .. => "leaking DMA buffer "

theorem message_eq_opening (e : LogEvent) : ∃ rest, e.message = e.opening ++ rest := by
  cases e with
  | missingCompletion => exact ⟨"", rfl⟩
  | _ =>
    delta message
    simp only [String.append_assoc]
    exact ⟨_, rfl⟩

/-- Among the events of one level the openings differ early enough. -/
theorem notice?_of_opening {e : LogEvent} {n : Notice} (hlevel : e.level = n.level)
    (htext : n.text.toList.take e.opening.toList.length =
      e.opening.toList.take n.text.toList.length) : e.notice? = some n := by
  cases n with
  | frame =>
    cases e with
    | frameDelivered => rfl
    | _ => cases hlevel
  | dropped =>
    cases e with
    | frameDropped => rfl
    | entryUnreadable | missingCompletion | reapSkipped =>
      exact absurd htext (by simp only [opening, Notice.text]; decide)
    | _ => cases hlevel
  | missing =>
    cases e with
    | missingCompletion => rfl
    | entryUnreadable | frameDropped | reapSkipped =>
      exact absurd htext (by simp only [opening, Notice.text]; decide)
    | _ => cases hlevel
  | exhausted =>
    cases e with
    | poolExhausted => rfl
    | registering | ringSetUp | attached | ringReleased =>
      exact absurd htext (by simp only [opening, Notice.text]; decide)
    | _ => cases hlevel
  | faulted =>
    cases e with
    | ringFaulted => rfl
    | ringMemoryLeaked | attachFailed | headNotPublished | reapFailed | bufferUnreadable
    | bufferLeaked =>
      exact absurd htext (by simp only [opening, Notice.text]; decide)
    | _ => cases hlevel

/-- Level and text tell the five kinds of records apart from everything else. -/
theorem reads_iff {e : LogEvent} {n : Notice} : e.Reads n ↔ e.notice? = some n := by
  obtain ⟨rest, hmessage⟩ := e.message_eq_opening
  rw [Reads, hmessage, String.toList_append]
  constructor
  · rintro ⟨hlevel, htext⟩
    exact notice?_of_opening hlevel (take_eq_of_prefix_append htext)
  · intro hn
    refine ⟨?_, List.IsPrefix.trans ?_ (List.prefix_append _ _)⟩
    · cases e <;> cases hn <;> rfl
    · cases e <;> cases hn <;> simp only [opening, Notice.text] <;> decide

end LogEvent

end FrameRing
