import BridgeMcp.Shell.Hosts
import BridgeMcp.Shell.Words

/-!
Allowing and denying ports with iptables (`domain/use_cases/firewall.rs`). Both builders append a
rule to the INPUT chain, of which the first rule that matches decides.
-/
namespace BridgeMcp.Firewall
open TextLib Shell CheckLib List

def parseU16 (s : Text) : Option ℕ := (parseU32 s).filter (· < 2 ^ 16)

def validatePort (isAlphanumeric : Char → Bool) (port : Text) : Except CommandDenied Unit := do
  if port.isEmpty then .error ⟨"Port cannot be empty"⟩
  refuseOptionLike "port" port
  match splitFirst [':'] port with
  | some (start, stop) =>
    match parseU16 start, parseU16 stop with
    | none, _ => .error ⟨"Invalid port range start: '" ++ start ++ "'"⟩
    | some _, none => .error ⟨"Invalid port range end: '" ++ stop ++ "'"⟩
    | some s, some e =>
      if s = 0 ∨ e = 0 ∨ e < s then
        .error ⟨"Invalid port range: " ++ Nat.toDigits 10 s ++ ":" ++ Nat.toDigits 10 e⟩
  | none =>
    if parseU16 port = some 0 then .error ⟨"Port 0 is not valid"⟩
    else if (parseU16 port).isSome then .ok ()
    else if port.all Char.isDigit then
      .error ⟨"Invalid port number: '" ++ port ++ "' (must be 1-65535)"⟩
    else if port.all fun c => isAlphanumeric c || c == '-' then .ok ()
    else .error ⟨"Invalid port: '" ++ port ++ "'. Expected a port number (1-65535), " ++
      "range (e.g., '8080:8090'), or service name"⟩

def validateProtocol (p : Text) : Except CommandDenied Unit :=
  if p ∈ ["tcp", "udp", "icmp", "icmpv6"].map String.toList then .ok ()
  else .error ⟨"Invalid firewall protocol '" ++ p ++ "'. Allowed: tcp|udp|icmp|icmpv6"⟩

def validateSource (source : Text) : Except CommandDenied Unit :=
  if source.isEmpty then .error ⟨"Source address cannot be empty"⟩
  else if source.all fun c => (hexDigitValue c).isSome || ['.', ':', '/'].contains c then .ok ()
  else .error ⟨"Invalid source address '" ++ source ++ "': must be a valid IP or CIDR notation"⟩

/-- A call of `build_allow_command` or of `build_deny_command`. -/
structure Call where
  allows : Bool
  port : Text
  protocol : Option Text
  source : Option Text

def Call.target (call : Call) : Text := if call.allows then "ACCEPT" else "DROP"

def Call.proto (call : Call) : Text := call.protocol.getD "tcp"

/-- `program` is `iptables`, or `/usr/sbin/iptables` in a branch of the line that looks for it. -/
def iptablesLine (program : Text) (call : Call) : Text :=
  let jump : List (Quoting × Text) := [(.posixWord, "-j"), (.posixWord, call.target)]
  quotedLine ((.posixWord, program) :: (.posixWord, "-A") :: (.posixWord, "INPUT") ::
    (.posixWord, "-p") :: (.posixWord, call.proto) :: (.posixWord, "--dport") ::
    (.escape, call.port) :: match call.source with
      | none => jump
      | some source => (.posixWord, "-s") :: (.escape, source) :: jump)

def buildCommand (isAlphanumeric : Char → Bool) (program : Text) (call : Call) :
    Except CommandDenied Text := do
  validatePort isAlphanumeric call.port
  ifGiven call.protocol validateProtocol
  ifGiven call.source validateSource
  .ok (iptablesLine program call)

structure Packet (Addr : Type) where
  protocol : Text
  port : ℕ
  source : Addr

structure Rule (Addr : Type) where
  applies : Packet Addr → Bool
  target : Text

/-- The first rule that applies decides; where there is none, the policy of the chain does. -/
def verdict {Addr : Type} (chain : List (Rule Addr)) (packet : Packet Addr) : Option Text :=
  (chain.find? (·.applies packet)).map Rule.target

def portRange (port : Text) : Option (ℕ × ℕ) :=
  match splitFirst [':'] port with
  | some (start, stop) => (parseU16 start).bind fun s => (parseU16 stop).map (s, ·)
  | none => (parseU16 port).map fun p => (p, p)

variable {Addr : Type} (network : Text → Addr → Bool)

/-- `network` are the addresses that a source text names, none for a text that iptables refuses. -/
def matchOf (proto port : Text) (source : Option Text) (packet : Packet Addr) : Bool :=
  packet.protocol = proto &&
    (portRange port).any (fun r => r.1 ≤ packet.port ∧ packet.port ≤ r.2) &&
    source.all (network · packet.source)

/-- The rule that the line puts at the end of the chain. -/
def appended : List Text → Option (Rule Addr)
  | _ :: a :: input :: p :: proto :: dport :: port :: options =>
    if [a, input, p, dport] = ["-A".toList, "INPUT".toList, "-p".toList, "--dport".toList] then
      match options with
      | [_, target] => some ⟨matchOf network proto port none, target⟩
      | [_, source, _, target] => some ⟨matchOf network proto port (some source), target⟩
      | _ => none
    else none
  | _ => none

def Call.covers (call : Call) : Packet Addr → Bool := matchOf network call.proto call.port call.source

/-- The chain after the commands of the calls; a call that is refused sends none. -/
def run (isAlphanumeric : Char → Bool) (program : Text) (chain : List (Rule Addr))
    (calls : List Call) : List (Rule Addr) :=
  chain ++ calls.filterMap fun call =>
    (buildCommand isAlphanumeric program call).toOption.bind fun line =>
      (shellWords line).bind (appended network)

/-- Each packet is treated as the last call that covers it says, and as before if there is none. -/
def LastWins (before after : List (Rule Addr)) (calls : List Call) : Prop :=
  ∀ packet, verdict after packet =
    ((calls.filter (·.covers network packet)).getLast?.map Call.target).or (verdict before packet)

variable {network} {isAlphanumeric : Char → Bool} {prog : Text} {chain : List (Rule Addr)}
  {calls : List Call} {call : Call}

theorem appended_iptablesLine (network : Text → Addr → Bool) (prog : Text) (call : Call) :
    (shellWords (iptablesLine prog call)).bind (appended network) =
      some ⟨call.covers network, call.target⟩ := by
  rw [iptablesLine, shellWords_quotedLine]
  obtain ⟨allows, port, protocol, source⟩ := call
  cases source with
  | none => rfl
  | some source => rfl

theorem run_concat {line : Text} (h : buildCommand isAlphanumeric prog call = .ok line) :
    run network isAlphanumeric prog chain (calls ++ [call]) =
      run network isAlphanumeric prog chain calls ++ [⟨call.covers network, call.target⟩] := by
  obtain ⟨-, hrest⟩ := ok_of_bind h
  obtain ⟨-, hrest⟩ := ok_of_bind hrest
  obtain ⟨-, hrest⟩ := ok_of_bind hrest
  cases hrest
  have hrule := appended_iptablesLine network prog call
  simp [run, h, Except.toOption, hrule]

theorem verdict_concat (rule : Rule Addr) (packet : Packet Addr) :
    verdict (chain ++ [rule]) packet =
      (verdict chain packet).or (if rule.applies packet then some rule.target else none) := by
  rw [verdict, verdict, find?_append, find?_singleton]
  cases chain.find? (·.applies packet) with
  | none => cases rule.applies packet <;> rfl
  | some first => rfl

/-- A call is not overruled: what the chain decides on the packets it covers is what it says. -/
def Unshadowed (network : Text → Addr → Bool) (chain : List (Rule Addr)) (call : Call) : Prop :=
  ∀ packet, call.covers network packet = true →
    ∀ decided, verdict chain packet = some decided → decided = call.target

theorem lastWins_concat {before : List (Rule Addr)} (h : LastWins network before chain calls) :
    LastWins network before (chain ++ [⟨call.covers network, call.target⟩]) (calls ++ [call]) ↔
      Unshadowed network chain call := by
  refine forall_congr' fun packet => ?_
  rw [verdict_concat, filter_append, filter_singleton]
  dsimp only
  by_cases hcovers : call.covers network packet = true
  · rw [if_pos hcovers, hcovers, cond_true, getLast?_concat, Option.map_some, Option.some_or]
    cases verdict chain packet with
    | none => exact iff_of_true rfl nofun
    | some decided =>
      rw [Option.some_or, Option.some.injEq]
      exact ⟨fun heq _ _ hother => Option.some.inj hother ▸ heq, fun hall => hall rfl _ rfl⟩
  · rw [if_neg hcovers, Bool.eq_false_iff.mpr hcovers, cond_false, append_nil, Option.or_none]
    exact iff_of_true (h packet) nofun

/-- For every chain and every sequence of accepted calls with numeric ports over tcp or udp, with
iptables as the back end: after each of the calls the last decision wins exactly if no call is
overruled by the chain that it finds. -/
theorem last_decision_wins_iff (isAlphanumeric : Char → Bool) (prog : Text)
    (network : Text → Addr → Bool) (chain : List (Rule Addr)) (calls : List Call)
    (haccepted : ∀ call ∈ calls, (∃ line, buildCommand isAlphanumeric prog call = .ok line) ∧
      (portRange call.port).isSome = true ∧ call.proto ∈ ["tcp".toList, "udp".toList]) :
    (∀ done, done <+: calls →
      LastWins network chain (run network isAlphanumeric prog chain done) done) ↔
    ∀ done call, done ++ [call] <+: calls →
      Unshadowed network (run network isAlphanumeric prog chain done) call := by
  have hstep : ∀ done call, done ++ [call] <+: calls →
      run network isAlphanumeric prog chain (done ++ [call]) =
        run network isAlphanumeric prog chain done ++ [⟨call.covers network, call.target⟩] := by
    intro done call hdone
    obtain ⟨⟨line, hline⟩, -⟩ := haccepted call (hdone.subset (by simp))
    exact run_concat hline
  constructor
  · intro h done call hdone
    have hlast := h _ hdone
    rw [hstep done call hdone] at hlast
    exact (lastWins_concat (h done ((List.prefix_append _ _).trans hdone))).mp hlast
  · intro h done hdone
    induction done using reverseRecOn with
    | nil => simp [LastWins, run]
    | append_singleton done call ih =>
      rw [hstep done call hdone]
      exact (lastWins_concat (ih ((List.prefix_append _ _).trans hdone))).mpr (h done call hdone)

def ssh (allows : Bool) : Call := ⟨allows, "22", none, none⟩

def nowhere (_ : Text) (_ : Unit) : Bool := false

theorem run_ssh (chain : List (Rule Unit)) (calls : List Call) (allows : Bool) :
    run nowhere Char.isAlphanum "iptables" chain (calls ++ [ssh allows]) =
      run nowhere Char.isAlphanum "iptables" chain calls ++
        [⟨(ssh allows).covers nowhere, (ssh allows).target⟩] :=
  @run_concat _ _ _ _ _ _ _ (iptablesLine "iptables" (ssh allows)) (by cases allows <;> rfl)

/-- Udp is dropped already; the second denial covers the first. -/
theorem last_decision_wins_iff_ssh :
    let chain : List (Rule Unit) := [⟨fun packet => packet.protocol = "udp".toList, "DROP"⟩]
    let calls := [ssh false, ⟨false, "20:25", none, none⟩]
    LastWins nowhere chain (run nowhere Char.isAlphanum "iptables" chain calls) calls := by
  intro chain calls
  refine (last_decision_wins_iff Char.isAlphanum "iptables" nowhere chain calls ?_).mpr ?_ _
    (List.prefix_refl _)
  · exact forall_mem_cons.mpr ⟨⟨⟨_, rfl⟩, rfl, mem_cons_self⟩,
      forall_mem_singleton.mpr ⟨⟨_, rfl⟩, rfl, mem_cons_self⟩⟩
  · intro done call hdone packet _ decided hdecided
    obtain ⟨rule, hrule, rfl⟩ := Option.map_eq_some_iff.mp hdecided
    have hmem := mem_of_find?_eq_some hrule
    have hrun : run nowhere Char.isAlphanum "iptables" chain [ssh false] =
        chain ++ [⟨(ssh false).covers nowhere, "DROP"⟩] := run_ssh chain [] false
    have hdrops : ∀ rule ∈ run nowhere Char.isAlphanum "iptables" chain [ssh false],
        rule.target = "DROP" := by
      rw [hrun]
      simp [chain]
    rcases done with _ | ⟨first, _ | ⟨second, done⟩⟩
    · obtain ⟨rfl, -⟩ := List.cons_prefix_cons.mp hdone
      exact hdrops rule (hrun ▸ mem_append_left _ hmem)
    · obtain ⟨rfl, hcall⟩ := List.cons_prefix_cons.mp hdone
      obtain ⟨rfl, -⟩ := List.cons_prefix_cons.mp hcall
      exact hdrops rule hmem
    · exact absurd hdone.length_le (by simp [calls])

/-- Port 22 is allowed and then denied: the packet is still accepted. -/
theorem earlier_call_decides :
    verdict (run nowhere Char.isAlphanum "iptables" [] [ssh true, ssh false]) ⟨"tcp", 22, ()⟩ =
        some "ACCEPT".toList ∧
      (ssh false).covers nowhere ⟨"tcp", 22, ()⟩ = true := by
  have hfirst : run nowhere Char.isAlphanum "iptables" [] [ssh true] = _ := run_ssh [] [] true
  have hboth : run nowhere Char.isAlphanum "iptables" [] [ssh true, ssh false] = _ :=
    run_ssh [] [ssh true] false
  rw [hboth, hfirst]
  exact ⟨rfl, rfl⟩

end BridgeMcp.Firewall
