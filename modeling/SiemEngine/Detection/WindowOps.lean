import SiemEngine.Detection.Engine

/-!
# What the detectors do with their windows

A detector touches the windows with one operation at most, and its answer is a function of
what the operation measured.
-/

namespace SiemEngine

/-- The operations on windows from which the detectors are built. -/
inductive WindowOp : {ρ : Type} → (Tick → Windows → Windows × ρ) → Prop
  | const {ρ : Type} (r : ρ) : WindowOp fun _ ws => (ws, r)
  | addAndMeasure (name entity value : String) (w : ℤ) (now : ℚ) :
    WindowOp fun tick ws => ws.addAndMeasure tick name entity value w now
  | incrSum (py : Python) (name entity : String) (amount w : ℤ) (now : ℚ) :
    WindowOp fun tick ws => ws.incrSum py tick name entity amount w now
  | measure (name entity : String) (w : ℤ) :
    WindowOp fun tick ws => ws.measure tick name entity w
  | map {ρ τ : Type} {op : Tick → Windows → Windows × ρ} (h : WindowOp op) (f : ρ → τ) :
    WindowOp fun tick ws => ((op tick ws).1, f (op tick ws).2)

theorem WindowOp.of_map {ρ τ : Type} {op : Tick → Windows → Windows × ρ} (h : WindowOp op)
    (f : ρ → τ) {op' : Tick → Windows → Windows × τ}
    (heq : ∀ tick ws, op' tick ws = ((op tick ws).1, f (op tick ws).2)) : WindowOp op' := by
  have hfun : op' = fun tick ws => ((op tick ws).1, f (op tick ws).2) := by
    funext tick ws
    exact heq tick ws
  rw [hfun]
  exact h.map f

namespace Rule

section

variable (py : Python) (p : Params) (ev : SecurityEvent)

theorem windowOp_bruteForce :
    WindowOp fun tick ws => BruteForce.evaluate py p tick ev ws := by
  cases hip : ev.sourceText with
  | none =>
    simp only [BruteForce.evaluate, hip]
    exact WindowOp.const _
  | some ip =>
    have hobserve : WindowOp fun tick ws => BruteForce.observe p tick ev ip ws := by
      unfold BruteForce.observe
      split_ifs
      · exact WindowOp.measure ..
      · exact WindowOp.addAndMeasure ..
    refine hobserve.of_map (fun res => if (res.count : ℤ) < p.maxFailures then .ok none
      else .ok (some (BruteForce.detection py p ev ip res (ev.eventType = .authSuccess)))) ?_
    intro tick ws
    simp only [BruteForce.evaluate, hip]
    split_ifs <;> rfl

theorem windowOp_passwordSpray :
    WindowOp fun tick ws => PasswordSpray.evaluate py p tick ev ws := by
  cases hip : ev.sourceText with
  | none =>
    simp only [PasswordSpray.evaluate, hip]
    exact WindowOp.const _
  | some ip =>
    refine (WindowOp.addAndMeasure "spray" ip (py.lower (ev.user.getD "-")) p.sprayWindow
      ev.epoch).of_map (fun res =>
        if ((accounts res.uniqueValues).length : ℤ) < p.uniqueUsers then .ok none
        else .ok (some (PasswordSpray.detection py p ev ip res))) ?_
    intro tick ws
    simp only [PasswordSpray.evaluate, hip]
    split_ifs <;> rfl

theorem windowOp_portScan : WindowOp fun tick ws => PortScan.evaluate py p tick ev ws := by
  cases hip : ev.sourceText with
  | none =>
    simp only [PortScan.evaluate, hip]
    exact WindowOp.const _
  | some ip =>
    refine (WindowOp.addAndMeasure "portscan" ip (shownPort ev.destinationPort)
      p.portScanWindow ev.epoch).of_map (fun res =>
        if (res.uniqueValues.length : ℤ) < p.uniquePorts then .ok none
        else .ok (some (PortScan.detection py p ev ip res))) ?_
    intro tick ws
    simp only [PortScan.evaluate, hip]
    split_ifs <;> rfl

theorem windowOp_dataExfiltration :
    WindowOp fun tick ws => DataExfiltration.evaluate py p tick ev ws := by
  cases hip : ev.sourceText with
  | none =>
    simp only [DataExfiltration.evaluate, hip]
    exact WindowOp.const _
  | some ip =>
    refine (WindowOp.incrSum py "exfil" (ip ++ "->" ++ ev.destinationText.getD "any")
      ev.bytesOut.val p.exfilWindow ev.epoch).of_map (fun total =>
        if total < p.bytesThreshold then .ok none
        else if p.bytesThreshold = 0 then .error .zeroDivision
        else .ok (some (DataExfiltration.detection py p ev ip total))) ?_
    intro tick ws
    simp only [DataExfiltration.evaluate, hip]
    split_ifs <;> rfl

theorem windowOp_authAnomaly :
    WindowOp fun tick ws => AuthAnomaly.evaluate py p tick ev ws := by
  cases huser : ev.user with
  | none =>
    simp only [AuthAnomaly.evaluate, huser]
    exact WindowOp.const _
  | some user =>
    cases hip : ev.sourceText with
    | none =>
      simp only [AuthAnomaly.evaluate, huser, hip]
      exact WindowOp.const _
    | some ip =>
      refine (WindowOp.addAndMeasure
        (if ev.status = some .success then "authgeo_ok" else "authgeo_fail") (py.lower user) ip
        p.authGeoWindow ev.epoch).of_map (fun res =>
          if ev.status ≠ some .success ∨ (res.uniqueValues.length : ℤ) < p.distinctIps
          then .ok none else .ok (some (AuthAnomaly.detection py p ev user ip res))) ?_
      intro tick ws
      simp only [AuthAnomaly.evaluate, huser, hip]
      split_ifs <;> rfl

theorem windowOp_evaluate (rule : Rule) :
    WindowOp fun tick ws => rule.evaluate py p tick ev ws := by
  cases rule with
  | bruteForce => exact windowOp_bruteForce py p ev
  | passwordSpray => exact windowOp_passwordSpray py p ev
  | portScan => exact windowOp_portScan py p ev
  | privilegeEscalation =>
    unfold evaluate PrivilegeEscalation.evaluate
    dsimp only
    split_ifs <;> exact WindowOp.const _
  | suspiciousSql =>
    unfold evaluate SuspiciousSql.evaluate
    dsimp only
    split_ifs
    · exact WindowOp.const _
    · split
      · exact WindowOp.const _
      · split <;> exact WindowOp.const _
  | dataExfiltration => exact windowOp_dataExfiltration py p ev
  | authAnomaly => exact windowOp_authAnomaly py p ev

end

end Rule

end SiemEngine
