import InferenceRouter.BackendSet.Model
import InferenceRouter.Router.Model

/-!
# The command line

`parse_args`, `parse_host_port` and `parse_backend_spec` of `main.cpp`, and what `main`
hands on to the thread pool, the handlers and the backend set.

A C string is the list of its characters.  `getopt_long` is not modelled: `Opt` is what
it returns, with `optarg`, and a command line is the list of these.  `atoi` is a
parameter (`Libc`), since the C library leaves open what it returns for a number that is
not an `int`.

`parse_args` accepts only weights from `1` to `2 ^ 31 - 1` (`parseArgs_weights`).
-/

namespace InferenceRouter.CommandLine

open BackendSet

/-! ## `atoi` -/

/-- `isspace` of the C locale. -/
def isSpace (c : Char) : Bool := c ∈ [' ', '\t', '\n', '\x0b', '\x0c', '\r']

/-- The number that the digits at the beginning of a string make. -/
def leadingNat (s : List Char) : Nat :=
  (s.takeWhile Char.isDigit).foldl (fun n c => 10 * n + (c.toNat - '0'.toNat)) 0

/-- The number at the beginning of a string, after white space and a sign. -/
def leadingInt (s : List Char) : Int :=
  match s.dropWhile isSpace with
  | '-' :: t => -leadingNat t
  | '+' :: t => leadingNat t
  | t => leadingNat t

/-- The values of an `int`. -/
def IsInt (n : Int) : Prop := -2 ^ 31 ≤ n ∧ n < 2 ^ 31

/-- The part of the C library that the parsers call.  Where the number is not an `int`,
`atoi` may return any. -/
structure Libc where
  atoi : List Char → Int
  isInt : ∀ s, IsInt (atoi s)
  atoi_eq : ∀ s, IsInt (leadingInt s) → atoi s = leadingInt s

/-- A library whose `atoi` keeps the low 32 bits. -/
def Libc.wrapping : Libc where
  atoi s := (leadingInt s).bmod (2 ^ 32)
  isInt s := by
    have hlow := Int.le_bmod (x := leadingInt s) (m := 2 ^ 32) (by omega)
    have hhigh := Int.bmod_lt (x := leadingInt s) (m := 2 ^ 32) (by omega)
    exact ⟨by omega, by omega⟩
  atoi_eq s h := by
    obtain ⟨hlow, hhigh⟩ := h
    exact Int.bmod_eq_of_le (by omega) (by omega)

/-- `static_cast<std::size_t>` of an `int`. -/
def sizeT (n : Int) : Nat := (n % 2 ^ 64).toNat

/-! ## `HOST:PORT[:WEIGHT]` -/

/-- The position of the first colon. -/
def find (s : List Char) : Option Nat := s.findIdx? (· = ':')

/-- The position of the last colon. -/
def rfind (s : List Char) : Option Nat := (find s.reverse).map (fun i => s.length - 1 - i)

section Parsers

variable (libc : Libc)

/-- The port at the beginning of a string. -/
def parsePort (s : List Char) : Option UInt16 :=
  let p := libc.atoi s
  if p ≤ 0 ∨ 65535 < p then none else some (.ofNat p.toNat)

/-- `parse_host_port`. -/
def parseHostPort (s : List Char) : Option (String × UInt16) :=
  match rfind s with
  | some colon =>
      if colon = 0 then none
      else (parsePort libc (s.drop (colon + 1))).map (fun port => (.ofList (s.take colon), port))
  | none => none

/-- `parse_backend_spec`. -/
def parseBackendSpec (s : List Char) : Option BackendSpec :=
  match rfind s, find s with
  | some lastColon, some firstColon =>
      if lastColon = 0 then none
      else if firstColon = lastColon then
        (parsePort libc (s.drop (lastColon + 1))).map (fun port =>
          { host := .ofList (s.take lastColon), port := port, weight := 1 })
      else
        (parsePort libc (s.drop (firstColon + 1))).bind (fun port =>
          let w := libc.atoi (s.drop (lastColon + 1))
          if w < 0 then none
          else some {
            host := .ofList (s.take firstColon)
            port := port
            weight := .ofNat (sizeT (if w = 0 then 1 else w)) })
  | _, _ => none

end Parsers

/-! ## `parse_args` -/

/-- `Args`. -/
structure Args where
  listenHost : String := "0.0.0.0"
  listenPort : UInt16 := 8080
  backends : List BackendSpec := []
  threads : Nat := 8
  poolSize : Nat := 16
  shutdownGraceMs : Int := 30000
  logLevel : Int := 1
  tlsEnabled : Bool := false
  tlsCertPath : List Char := []
  tlsKeyPath : List Char := []
  tlsClientCaPath : List Char := []

/-- What `getopt_long` returns, with `optarg`. -/
inductive Opt where
  | listen (optarg : List Char)
  | backend (optarg : List Char)
  | threads (optarg : List Char)
  | poolSize (optarg : List Char)
  | shutdownGrace (optarg : List Char)
  | logLevel (optarg : List Char)
  | tls
  | tlsCert (optarg : List Char)
  | tlsKey (optarg : List Char)
  | tlsClientCa (optarg : List Char)
  | help
  /-- An option that is not in the table, or has no argument. -/
  | unknown

/-- How a command line is refused. -/
inductive Refusal where
  | invalidListen (optarg : List Char)
  | invalidBackend (optarg : List Char)
  | usage
  | help
  deriving DecidableEq

/-- The text of `usage`. -/
def usage : String :=
  "inference-router\n" ++
  "  --listen HOST:PORT             (default 0.0.0.0:8080)\n" ++
  "  --backend HOST:PORT[:WEIGHT]   (repeatable; default 127.0.0.1:9090 weight=1)\n" ++
  "                                   When more than one --backend is given,\n" ++
  "                                   weighted-least-conn selection routes each\n" ++
  "                                   request to the backend with the lowest\n" ++
  "                                   in_flight/weight. Tie-break: lowest index.\n" ++
  "  --threads N                    (default 8)\n" ++
  "  --pool-size N                  (per-backend pool max; default 16)\n" ++
  "  --shutdown-grace SECONDS       (default 30)\n" ++
  "  --log-level [0..3]             (default 1=info)\n" ++
  "  --tls                          enable TLS on the acceptor (requires " ++
  "--tls-cert and --tls-key)\n" ++
  "  --tls-cert PATH                PEM cert chain\n" ++
  "  --tls-key PATH                 PEM private key\n" ++
  "  --tls-client-ca PATH           PEM CA bundle; when set, mTLS is required\n" ++
  "  --help\n"

/-- What is written to `stderr`. -/
def Refusal.stderr : Refusal → String
  | .invalidListen optarg => "invalid --listen value: " ++ .ofList optarg ++ "\n"
  | .invalidBackend optarg =>
      "invalid --backend value: " ++ .ofList optarg ++ " (expected HOST:PORT[:WEIGHT])\n"
  | .usage | .help => CommandLine.usage

/-- The exit status of the process. -/
def Refusal.status : Refusal → Nat
  | .help => 0
  | .invalidListen _ | .invalidBackend _ | .usage => 2

/-- One turn of the loop of `parse_args`. -/
def Args.take (libc : Libc) (out : Args) : Opt → Except Refusal Args
  | .listen optarg =>
      match parseHostPort libc optarg with
      | some (host, port) => .ok { out with listenHost := host, listenPort := port }
      | none => .error (.invalidListen optarg)
  | .backend optarg =>
      match parseBackendSpec libc optarg with
      | some spec => .ok { out with backends := out.backends ++ [spec] }
      | none => .error (.invalidBackend optarg)
  | .threads optarg => .ok { out with threads := sizeT (libc.atoi optarg) }
  | .poolSize optarg => .ok { out with poolSize := sizeT (libc.atoi optarg) }
  -- the product is exact here; an overflow is undefined in the source
  | .shutdownGrace optarg => .ok { out with shutdownGraceMs := libc.atoi optarg * 1000 }
  | .logLevel optarg => .ok { out with logLevel := libc.atoi optarg }
  | .tls => .ok { out with tlsEnabled := true }
  | .tlsCert optarg => .ok { out with tlsCertPath := optarg }
  | .tlsKey optarg => .ok { out with tlsKeyPath := optarg }
  | .tlsClientCa optarg => .ok { out with tlsClientCaPath := optarg }
  | .help => .error .help
  | .unknown => .error .usage

/-- The loop of `parse_args`. -/
def Args.parse (libc : Libc) (out : Args) : List Opt → Except Refusal Args
  | [] => .ok out
  | opt :: opts =>
      match out.take libc opt with
      | .ok out => out.parse libc opts
      | .error refusal => .error refusal

/-- `parse_args`. -/
def parseArgs (libc : Libc) (opts : List Opt) : Except Refusal Args := Args.parse libc {} opts

/-! ## What `main` makes of the arguments -/

/-- The backend of a command line without one. -/
def defaultBackend : BackendSpec := { host := "127.0.0.1", port := 9090, weight := 1 }

/-- The arguments of the `BackendSet`. -/
def Args.backendSet (args : Args) : BackendSet.Config where
  specs := if args.backends.isEmpty then [defaultBackend] else args.backends
  shared := { maxSize := args.poolSize, minIdle := min 2 args.poolSize }

/-- What the threads of the router read. -/
def Args.router (args : Args) : Router.Config where
  threads := args.threads
  maxQueueDepth := 4096
  handler := { serverTls := args.tlsEnabled }
  shutdownGraceMs := args.shutdownGraceMs

/-! ## Weights -/

/-- A weight that a signed 32-bit number holds. -/
def IsWeight (w : UInt64) : Prop := 1 ≤ w.toNat ∧ w.toNat ≤ 2 ^ 31 - 1

variable {libc : Libc}

theorem isWeight_one : IsWeight 1 := ⟨le_rfl, by decide⟩

theorem isWeight_sizeT {w : Int} (hpos : 0 < w) (hint : IsInt w) :
    IsWeight (.ofNat (sizeT w)) := by
  have hlt := hint.2
  have hmod : w % 2 ^ 64 = w := Int.emod_eq_of_lt hpos.le (hlt.trans (by omega))
  rw [IsWeight, sizeT, hmod, UInt64.toNat_ofNat']
  omega

theorem parseBackendSpec_weight {s : List Char} {spec : BackendSpec}
    (h : parseBackendSpec libc s = some spec) : IsWeight spec.weight := by
  simp only [parseBackendSpec] at h
  split at h
  next lastColon firstColon hlast hfirst =>
    split at h
    next => cases h
    next =>
      split at h
      next =>
        obtain ⟨port, -, rfl⟩ := Option.map_eq_some_iff.mp h
        exact isWeight_one
      next =>
        obtain ⟨port, -, hspec⟩ := Option.bind_eq_some_iff.mp h
        split at hspec
        next => cases hspec
        next hneg =>
          cases hspec
          have hint := libc.isInt (s.drop (lastColon + 1))
          apply isWeight_sizeT <;> split
          · omega
          · omega
          · exact ⟨by omega, by omega⟩
          · exact hint
  next => cases h

theorem take_weights {opt : Opt} {out out' : Args} (h : out.take libc opt = .ok out')
    (hout : ∀ b ∈ out.backends, IsWeight b.weight) : ∀ b ∈ out'.backends, IsWeight b.weight := by
  cases opt with
  | backend optarg =>
      simp only [Args.take] at h
      split at h
      next spec hspec =>
        cases h
        intro b hb
        rcases List.mem_append.mp hb with hb | hb
        · exact hout b hb
        · rw [List.mem_singleton.mp hb]
          exact parseBackendSpec_weight hspec
      next => cases h
  | listen optarg =>
      simp only [Args.take] at h
      split at h
      next =>
        cases h
        exact hout
      next => cases h
  | threads | poolSize | shutdownGrace | logLevel | tls | tlsCert | tlsKey | tlsClientCa =>
      cases h
      exact hout
  | help | unknown => cases h

theorem parse_weights {opts : List Opt} {out args : Args} (h : out.parse libc opts = .ok args)
    (hout : ∀ b ∈ out.backends, IsWeight b.weight) : ∀ b ∈ args.backends, IsWeight b.weight := by
  induction opts generalizing out with
  | nil =>
      cases h
      exact hout
  | cons opt opts ih =>
      simp only [Args.parse] at h
      split at h
      next out' hopt => exact ih h (take_weights hopt hout)
      next => cases h

/-- Every weight of an accepted command line, given or defaulted. -/
theorem parseArgs_weights {opts : List Opt} {args : Args} (h : parseArgs libc opts = .ok args) :
    ∀ b ∈ args.backendSet.specs, IsWeight b.weight := by
  have hgiven := parse_weights h (by simp)
  simp only [Args.backendSet]
  split
  next =>
    intro b hb
    rw [List.mem_singleton.mp hb]
    exact isWeight_one
  next => exact hgiven

/-- So is every entry of `weights_`. -/
theorem weight_of_specs {cfg : BackendSet.Config} (h : ∀ b ∈ cfg.specs, IsWeight b.weight) {i : Nat}
    (hi : i < cfg.count) : IsWeight (cfg.weight i) := by
  have hspec := h cfg.specs[i] (List.getElem_mem hi)
  have hne : cfg.specs[i].weight ≠ 0 := by
    intro hzero
    rw [hzero] at hspec
    exact absurd hspec.1 (by decide)
  have hweight : cfg.weight i = cfg.specs[i].weight := by
    rw [Config.weight, Config.weights, List.getD_eq_getElem?_getD, List.getElem?_map,
      List.getElem?_eq_getElem hi, Option.map_some, Option.getD_some, if_neg hne]
  rw [hweight]
  exact hspec

end InferenceRouter.CommandLine
