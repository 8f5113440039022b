import Homework.Convertor.Ending
import Homework.Library.Descriptors

/-!
# The dialogue with the server

`print_message` tries the addresses of the server one after another, each with a new descriptor,
and closes the descriptors of those that it cannot use. `fetch` reads the greeting, sends one
command, and reads one answer.

The server answers the lines that it gets. `snprintf` cuts the command off behind 2047 bytes, the
end of the line first. Then the server waits for the rest of the line, and the client for the
answer. So with a server that greets and answers, `print_message` returns exactly when the line that
it sends has an end (`dialogue`), and it leaves the descriptors as they were. That a greeting or an
answer ends the loop of `read_msg` with its last chunk, and not before, is a condition on the server
(`Server`). An argument with a newline makes several commands, of which only the first is answered
for the client.
-/

set_option autoImplicit false
set_option relaxedAutoImplicit false

namespace Homework.Convertor

open Homework.Library.ByteBuffer Homework.Library.CString Homework.Library.Descriptors
  Homework.Library.StringBuffer

/-! ### Connecting -/

/-- Whether `socket` and `connect` succeed for an address. -/
structure Attempt where
  socket : Bool
  connects : Bool

/-- The loop of `print_message`, with the descriptors in use. Gives `sock_fd`, unless the list of
addresses ends. -/
def connectLoop : List Attempt → List ℤ → Option ℤ × List ℤ
  | [], used => (none, used)
  | attempt :: rest, used =>
    let sockFd := if attempt.socket then lowestFree used else -1
    let opened := if attempt.socket then lowestFree used :: used else used
    if 0 < sockFd ∧ attempt.connects then (some sockFd, opened)
    else connectLoop rest (opened.erase sockFd)

/-- How far `print_message` has come, with the descriptors in use and the number of times that
`freeaddrinfo` was called. -/
structure Session where
  printing : Printing
  used : List ℤ
  freed : ℕ

instance : DecidablePred Printing.Done
  | .fetching (.answer _ (.returned _ _)) => isTrue trivial
  | .fetching (.answer _ (.waiting _)) => isFalse id
  | .fetching (.greeting _) => isFalse id
  | .unresolved => isTrue trivial
  | .unconnected => isTrue trivial

/-- `print_message`, with its descriptors. -/
def printMessageIn (resolved : Option (List Attempt)) (font message : List UInt8) (used : List ℤ)
    (results : List ReadResult) : Except Fault Session :=
  match resolved with
  | none => .ok ⟨.unresolved, used, 0⟩
  | some attempts =>
    match connectLoop attempts used with
    | (none, used) => .ok ⟨.unconnected, used, 1⟩
    | (some sockFd, used) => do
      let fetching ← fetch font message results
      if (Printing.fetching fetching).Done then
        return ⟨.fetching fetching, used.erase sockFd, 1⟩
      else return ⟨.fetching fetching, used, 0⟩

/-- An address to which the client can connect. The descriptor 0 counts as a failure. -/
def Reached (resolved : Option (List Attempt)) (used : List ℤ) : Prop :=
  0 ∈ used ∧ ∃ attempts, resolved = some attempts ∧
    ∃ attempt ∈ attempts, attempt.socket = true ∧ attempt.connects = true

section Connect

variable {used : List ℤ}

theorem lowestFree_pos_iff : 0 < lowestFree used ↔ 0 ∈ used := by
  have hleast := isLeast_lowestFree used
  constructor
  · intro hpos
    by_contra hnotMem
    exact absurd (hleast.2 ⟨le_refl 0, hnotMem⟩) (not_le.mpr hpos)
  · intro hmem
    refine lt_of_le_of_ne (lowestFree_nonneg used) fun hzero ↦ ?_
    exact lowestFree_notMem used (hzero ▸ hmem)

/-- Every attempt but the last leaves the descriptors as they were. -/
theorem connectLoop_eq (hused : ∀ fd ∈ used, 0 ≤ fd) (attempts : List Attempt) :
    connectLoop attempts used =
      if 0 ∈ used ∧ ∃ attempt ∈ attempts, attempt.socket = true ∧ attempt.connects = true then
        (some (lowestFree used), lowestFree used :: used)
      else (none, used) := by
  induction attempts with
  | nil => simp [connectLoop]
  | cons attempt rest ih =>
    obtain ⟨socket, connects⟩ := attempt
    have hminus : (-1 : ℤ) ∉ used := fun hmem ↦ absurd (hused _ hmem) (by decide)
    rw [connectLoop]
    cases socket with
    | false =>
      simp only [Bool.false_eq_true, if_false, List.erase_of_not_mem hminus, ih]
      simp
    | true =>
      simp only [if_true, List.erase_cons_head, ih, lowestFree_pos_iff]
      by_cases hzero : 0 ∈ used
      · cases connects with
        | false => simp
        | true => simp [hzero]
      · simp [hzero]

end Connect

/-! ### Commands -/

/-- The lines of a text that have an end, behind the beginning of the first. -/
def commandsFrom (line : List UInt8) : List UInt8 → List (List UInt8)
  | [] => []
  | byte :: rest =>
    if byte = newline then line :: commandsFrom [] rest else commandsFrom (line ++ [byte]) rest

/-- The commands that the server gets. -/
def commands (sent : List UInt8) : List (List UInt8) := commandsFrom [] sent

theorem commandsFrom_of_notMem {line text : List UInt8} (htext : newline ∉ text) :
    commandsFrom line text = [] := by
  induction text generalizing line with
  | nil => rfl
  | cons byte rest ih =>
    obtain ⟨hbyte, hrest⟩ := List.ne_and_not_mem_of_not_mem_cons htext
    rw [commandsFrom, if_neg hbyte.symm, ih hrest]

theorem commandsFrom_append_newline {line front : List UInt8} (hfront : newline ∉ front)
    (back : List UInt8) :
    commandsFrom line (front ++ newline :: back) = (line ++ front) :: commands back := by
  induction front generalizing line with
  | nil => rw [List.nil_append, commandsFrom, if_pos rfl, List.append_nil, commands]
  | cons byte rest ih =>
    obtain ⟨hbyte, hrest⟩ := List.ne_and_not_mem_of_not_mem_cons hfront
    rw [List.cons_append, commandsFrom, if_neg hbyte.symm, ih hrest, List.append_assoc]
    rfl

/-- A text without the end of a line has no commands. -/
theorem commands_eq_nil_iff (sent : List UInt8) : commands sent = [] ↔ newline ∉ sent := by
  refine ⟨fun hnil hmem ↦ ?_, commandsFrom_of_notMem⟩
  obtain ⟨front, back, rfl, hfront⟩ := List.eq_append_cons_of_mem hmem
  rw [commands, commandsFrom_append_newline hfront] at hnil
  exact absurd hnil (List.cons_ne_nil _ _)

section Message

variable {fontName text : List UInt8}

/-- What `snprintf` would print if there was room. -/
theorem message_eq_take (fontName text : List UInt8) :
    message fontName text =
      (ascii "figlet /" ++ (fontName ++ ascii " " ++ text) ++ [13, newline]).take 2047 := by
  rw [message, List.append_assoc (ascii "figlet /"), List.append_assoc (ascii "figlet /")]
  rfl

/-- A command that fits is sent whole. -/
theorem message_of_fits (hfits : fontName.length + text.length ≤ 2036) :
    message fontName text =
      ascii "figlet /" ++ (fontName ++ ascii " " ++ text) ++ [13, newline] := by
  have hcommand : (ascii "figlet /").length = 8 := by decide
  have hspace : (ascii " ").length = 1 := by decide
  rw [message_eq_take]
  refine List.take_of_length_le ?_
  simp only [List.length_append, hcommand, hspace, List.length_cons, List.length_nil]
  omega

/-- A command that does not fit loses the end of its line. -/
theorem newline_mem_message_of_long (hlong : 2036 < fontName.length + text.length) :
    newline ∈ message fontName text ↔ newline ∈ (fontName ++ ascii " " ++ text).take 2039 := by
  have hcommand : (ascii "figlet /").length = 8 := by decide
  have hspace : (ascii " ").length = 1 := by decide
  have hnewline : newline ∉ ascii "figlet /" := by decide
  have hreturn : newline ∉ ([13, newline] : List UInt8).take
      (2039 - (fontName ++ ascii " " ++ text).length) := by
    have hlength : (fontName ++ ascii " " ++ text).length = fontName.length + text.length + 1 := by
      rw [List.length_append, List.length_append, hspace]
      omega
    have hcut : 2039 - (fontName ++ ascii " " ++ text).length = 0 ∨
        2039 - (fontName ++ ascii " " ++ text).length = 1 := by omega
    rcases hcut with hcut | hcut <;> rw [hcut] <;> decide
  rw [message_eq_take, List.append_assoc, List.take_append, hcommand, List.take_append,
    List.mem_append, List.mem_append, List.take_of_length_le (by rw [hcommand]; decide),
    or_iff_right hnewline, or_iff_left hreturn]

/-- The client sends at least one whole line exactly when the command fits or an argument has a
newline in front of the cut. -/
theorem newline_mem_message_iff :
    newline ∈ message fontName text ↔ fontName.length + text.length ≤ 2036 ∨
      newline ∈ (fontName ++ ascii " " ++ text).take 2039 := by
  by_cases hfits : fontName.length + text.length ≤ 2036
  · refine iff_of_true ?_ (Or.inl hfits)
    rw [message_of_fits hfits]
    simp
  · rw [newline_mem_message_of_long (not_le.mp hfits), or_iff_right hfits]

/-- Arguments without a newline make one command, if it fits, and otherwise none. -/
theorem commands_message (hfont : newline ∉ fontName) (htext : newline ∉ text) :
    commands (message fontName text) =
      if fontName.length + text.length ≤ 2036 then
        [ascii "figlet /" ++ (fontName ++ ascii " " ++ text) ++ [13]]
      else [] := by
  have harguments : newline ∉ fontName ++ ascii " " ++ text := by
    simp only [List.mem_append, not_or]
    exact ⟨⟨hfont, by decide⟩, htext⟩
  split_ifs with hfits
  · have hline : message fontName text =
        (ascii "figlet /" ++ (fontName ++ ascii " " ++ text) ++ [13]) ++ newline :: [] := by
      rw [message_of_fits hfits, List.append_assoc _ [13]]
      rfl
    have hfront : newline ∉ ascii "figlet /" ++ (fontName ++ ascii " " ++ text) ++ [13] := by
      rw [List.mem_append, List.mem_append, not_or, not_or]
      exact ⟨⟨by decide, harguments⟩, by decide⟩
    rw [hline, commands, commandsFrom_append_newline hfront]
    rfl
  · rw [commands_eq_nil_iff, newline_mem_message_of_long (not_le.mp hfits)]
    exact fun hmem ↦ harguments (List.mem_of_mem_take hmem)

end Message

/-! ### The server -/

/-- A server that greets, and answers every command. The chunks of the greeting, and those of every
answer, stop the loop of `read_msg` with the last one. -/
structure Server where
  greeting : List Chunk
  answer : List UInt8 → List Chunk
  greeting_stops : StopsAt (filled bufSize []) greeting
  answer_stops : ∀ command, StopsAt (filled bufSize []) (answer command)

/-- What the client reads, if it sends some text. -/
def Server.results (server : Server) (sent : List UInt8) : List ReadResult :=
  dataOf (server.greeting ++ (commands sent).flatMap server.answer)

/-- `read_msg` reads the chunks that stop it, and leaves the others. -/
theorem exists_readMsg (print : Bool) {front : List Chunk}
    (hstops : StopsAt (filled bufSize []) front) (back : List Chunk) :
    ∃ printed, readMsg print (dataOf (front ++ back)) = .ok (.returned printed (dataOf back)) := by
  have hnone : ∀ result ∈ ([] : List ReadResult), ∀ buffer, received buffer result = buffer := nofun
  obtain ⟨printed, hread⟩ := (readMsg_returned_iff hnone).mpr
    ⟨front, back, rfl, hstops, (List.append_nil (dataOf back)).symm⟩
  rw [List.append_nil] at hread
  exact ⟨printed, hread⟩

/-- Without a command the client waits for ever. -/
theorem Server.fetch_of_nil (server : Server) {fontName text : List UInt8}
    (hnil : commands (message fontName text) = []) :
    fetch fontName text (server.results (message fontName text)) =
      .ok (.answer (message fontName text) (.waiting [])) := by
  obtain ⟨printed, hgreeting⟩ := exists_readMsg false server.greeting_stops []
  rw [fetch, Server.results, hnil, List.flatMap_nil, hgreeting]
  rfl

/-- The client reads the answer to the first command. -/
theorem Server.fetch_of_cons (server : Server) {fontName text first : List UInt8}
    {later : List (List UInt8)} (hcons : commands (message fontName text) = first :: later) :
    ∃ printed, fetch fontName text (server.results (message fontName text)) =
      .ok (.answer (message fontName text)
        (.returned printed (dataOf (later.flatMap server.answer)))) := by
  obtain ⟨greeting, hgreeting⟩ := exists_readMsg false server.greeting_stops
    (server.answer first ++ later.flatMap server.answer)
  obtain ⟨printed, hanswer⟩ := exists_readMsg true (server.answer_stops first)
    (later.flatMap server.answer)
  refine ⟨printed, ?_⟩
  rw [fetch, Server.results, hcons, List.flatMap_cons, hgreeting, ok_bind]
  simp only [hanswer, ok_bind]
  rfl

/-- The dialogue with a server that greets and answers every command, in chunks of which exactly the
last one stops `read_msg`. Assumes: the descriptors in use are not negative. `print_message` returns
exactly when it reaches no address or sends the end of a line: when the command has room in the
buffer, or an argument has a newline in front of the cut. When it returns the descriptors are as
they were, the list of addresses is freed if there is one, and what is left unread are the answers
to the commands behind the first. Otherwise it holds one descriptor, has sent its message, and
waits. -/
theorem dialogue (server : Server) (resolved : Option (List Attempt)) (font text : List UInt8)
    {used : List ℤ} (hused : ∀ fd ∈ used, 0 ≤ fd) :
    ∃ session, printMessageIn resolved font text used (server.results (message font text)) =
        .ok session ∧
      (session.printing.Done ↔ (Reached resolved used →
        font.length + text.length ≤ 2036 ∨ newline ∈ (font ++ ascii " " ++ text).take 2039)) ∧
      (session.printing.Done → session.used = used ∧
        session.freed = (if resolved.isSome then 1 else 0) ∧
        (Reached resolved used → ∃ printed, session.printing =
          .fetching (.answer (message font text) (.returned printed
            (dataOf ((commands (message font text)).tail.flatMap server.answer)))))) ∧
      (¬session.printing.Done →
        session = ⟨.fetching (.answer (message font text) (.waiting [])),
          lowestFree used :: used, 0⟩ ∧ 0 < lowestFree used ∧ lowestFree used ∉ used) := by
  rcases resolved with _ | attempts
  · have hreached : ¬Reached none used := fun ⟨_, _, hnone, _⟩ ↦ absurd hnone nofun
    exact ⟨_, rfl, iff_of_true trivial fun hall ↦ absurd hall hreached,
      fun _ ↦ ⟨rfl, rfl, fun hall ↦ absurd hall hreached⟩, fun hnot ↦ absurd trivial hnot⟩
  have hreachedIff : Reached (some attempts) used ↔ 0 ∈ used ∧
      ∃ attempt ∈ attempts, attempt.socket = true ∧ attempt.connects = true := by
    simp [Reached]
  by_cases hreached : Reached (some attempts) used
  · have hconnect := connectLoop_eq hused attempts
    rw [if_pos (hreachedIff.mp hreached)] at hconnect
    rw [forall_prop_of_true hreached, ← newline_mem_message_iff, printMessageIn, hconnect]
    rcases hcommands : commands (message font text) with _ | ⟨first, later⟩
    · have hnot := (commands_eq_nil_iff _).mp hcommands
      refine ⟨_, by rw [server.fetch_of_nil hcommands]; rfl, iff_of_false id hnot,
        fun hdone ↦ absurd hdone id, fun _ ↦ ⟨rfl, ?_, lowestFree_notMem used⟩⟩
      exact lowestFree_pos_iff.mpr hreached.1
    · have hmem : newline ∈ message font text := by
        by_contra hnot
        rw [(commands_eq_nil_iff _).mpr hnot] at hcommands
        exact absurd hcommands nofun
      obtain ⟨printed, hfetch⟩ := server.fetch_of_cons hcommands
      refine ⟨⟨.fetching (.answer (message font text) (.returned printed
          (dataOf (later.flatMap server.answer)))), used, 1⟩, ?_, iff_of_true trivial hmem,
        fun _ ↦ ⟨rfl, rfl, fun _ ↦ ⟨printed, rfl⟩⟩, fun hnot ↦ absurd trivial hnot⟩
      rw [hfetch]
      simp only [ok_bind, List.erase_cons_head]
      rfl
  · have hconnect := connectLoop_eq hused attempts
    rw [if_neg (hreachedIff.not.mp hreached)] at hconnect
    refine ⟨⟨.unconnected, used, 1⟩, by rw [printMessageIn, hconnect],
      iff_of_true trivial fun hall ↦ absurd hall hreached,
      fun _ ↦ ⟨rfl, rfl, fun hall ↦ absurd hall hreached⟩, fun hnot ↦ absurd trivial hnot⟩

/-- A chunk with a dot at its end. -/
def hello : Chunk := ⟨ascii "hi.", Nat.succ_pos 2, by decide⟩

theorem hello_stops : StopsAt (filled bufSize []) [hello] :=
  stopsAt_cons_iff.mpr ⟨⟨by decide, by decide⟩, (if_pos (by decide)).mpr rfl⟩

/-- The first address refuses the connection, and the second does not. -/
theorem dialogue_banner :
    ∃ session, printMessageIn (some [⟨true, false⟩, ⟨true, true⟩]) (ascii "banner") (ascii "hi")
        [0, 1, 2] ((⟨[hello], fun _ ↦ [hello], hello_stops, fun _ ↦ hello_stops⟩ : Server).results
          (message (ascii "banner") (ascii "hi"))) = .ok session ∧
      session.printing.Done ∧ session.used = [0, 1, 2] := by
  obtain ⟨session, hsession, hiff, hdone, -⟩ := dialogue
    ⟨[hello], fun _ ↦ [hello], hello_stops, fun _ ↦ hello_stops⟩
    (some [⟨true, false⟩, ⟨true, true⟩]) (ascii "banner") (ascii "hi")
    (by decide : ∀ fd ∈ [0, 1, 2], (0 : ℤ) ≤ fd)
  have hall : session.printing.Done := hiff.mpr fun _ ↦ Or.inl (by decide)
  exact ⟨session, hsession, hall, (hdone hall).1⟩

end Homework.Convertor
