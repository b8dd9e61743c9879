import NetCosm.Library.Loops
import NetCosm.Library.Runs
import NetCosm.Machine
import NetCosm.Text.CString

/-!
# Text on the terminal of a client

`out` of `client.c` formats a text into a buffer of 1024 bytes, breaks it into lines, and sends the
lines to the client.

## The loop

`ptr` is where the line that is being looked at begins, and `pos` is how far it has been looked
at; `last_space` is the last space on the way, as an offset from `ptr`, and `0` if there was none.
At a newline, or when `pos` has come to the width of the terminal, the line is copied to `line_buf`
and sent with a CR and an LF: up to the newline, or up to the last space, or, without one, all of it.
The spaces that follow are skipped, and the next line begins there.  What is left at the end of the
text is sent as it is.

`wrapStep` is one turn of the loop.  `ptr` is here what is left of the buffer, zeros and all, so that
reading past the end of the buffer is reading past the end of the list.

## The column

`pos` is static.  When `out` is called again it has the value it had at the end of the last call,
but `ptr` points to the new text: the first `pos` characters of that are not looked at.

## Widths

`line_width` is a `uint16_t`, one more than the width of the terminal, and `line_buf` has two bytes
more than that.  So the widths `0` and `65535` are special: in the one the lines have no room, and
in the other `line_width` is `0`.
-/

namespace NetCosm

/-- Line feed. -/
def LF : UInt8 := 10

/-- Carriage return. -/
def CR : UInt8 := 13

/-- A space. -/
def SPACE : UInt8 := 32

/-- The size of `buf`. -/
def OUT_SZ : ℕ := 1024

/-- The local variables of `out`, and what has been sent. -/
structure Wrapping where
  ptr : List UInt8
  pos : ℕ
  lastSpace : ℕ
  sent : List UInt8
  deriving DecidableEq

/-- The loop that copies to `line_buf`: what is copied, and what is left. -/
def copyLine : ℕ → List UInt8 → List UInt8 × List UInt8
  | 0, ptr => ([], ptr)
  | _ + 1, [] => ([], [])
  | n + 1, c :: ptr =>
      if c = 0 then ([], c :: ptr)
      else
        let r := copyLine n ptr
        (c :: r.1, r.2)

/-- One turn of the loop of `out`. -/
def wrapStep (lineWidth : ℕ) (s : Wrapping) : Except Fault (Option Wrapping) :=
  match s.ptr[s.pos]? with
  | none => .error .outOfBounds
  | some c =>
      if c = 0 then .ok none
      else if c = LF ∨ lineWidth ≤ s.pos + 1 then
        let lastSpace := if c = LF ∨ s.lastSpace = 0 then s.pos else s.lastSpace
        let r := copyLine lastSpace s.ptr
        -- `line_buf` has `line_width + 2` bytes
        if lineWidth < r.1.length then .error .outOfBounds
        else
          let ptr := if c = LF then r.2.tail else r.2
          .ok (some
            { ptr := ptr.dropWhile (· == SPACE)
              pos := 0
              lastSpace := 0
              sent := s.sent ++ r.1 ++ [CR, LF] })
      else
        .ok (some { s with
          pos := s.pos + 1
          lastSpace := if c = SPACE then s.pos else s.lastSpace })

/-- More turns than the loop can take, if it ends. -/
def wrapTurns : ℕ := OUT_SZ * OUT_SZ

/-- `line_width`. -/
def lineWidth (termWidth : UInt16) : ℕ := (termWidth + 1).toNat

/-- What `vsnprintf` leaves of a formatted text. -/
def formatted (text : CString) : List UInt8 := text.bytes.take (OUT_SZ - 1)

/-- `buf`. -/
def outBuf (text : CString) : List UInt8 :=
  formatted text ++ List.replicate (OUT_SZ - (formatted text).length) 0

/-- The static variable of `out`, and all that has been sent. -/
structure Screen where
  pos : ℕ
  sent : List UInt8
  deriving DecidableEq

/-- A client that has just connected. -/
def Screen.init : Screen := ⟨0, []⟩

/-- A call of `out`: the width of the terminal, and the formatted text. -/
structure OutCall where
  termWidth : UInt16
  text : CString

/-- The state the loop of `out` starts from. -/
def Wrapping.start (pos : ℕ) (text : CString) : Wrapping := ⟨outBuf text, pos, 0, []⟩

/-- `out`. -/
def out (s : Screen) (a : OutCall) : Except Fault Screen :=
  (loop (wrapStep (lineWidth a.termWidth)) .endlessLoop wrapTurns (.start s.pos a.text)).map
    fun w => ⟨w.pos, s.sent ++ (w.sent ++ w.ptr.takeWhile (· != 0))⟩

/-- A prompt at the beginning, and what is typed in answer to it. -/
example : out ⟨0, []⟩ ⟨80, ⟨[62, 62, 32], by decide⟩⟩ = .ok ⟨3, [62, 62, 32]⟩ := by
  decide +kernel

end NetCosm
