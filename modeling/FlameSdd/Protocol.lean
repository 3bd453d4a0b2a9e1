import FlameSdd.SysLib.PackedStruct
/-!
# Level2 packets

The packets that Level2 and the SDD send, as packed structs (`protocol.hpp`).
-/
open SysLib SysLib.PackedStruct

namespace FlameSdd.Protocol

/-- `_type_dk_lv2_mf_instruction`, TC code 1001. -/
def lv2MfInstruction : Layout :=
  [("cTcCode", 4), ("cDate", 14), ("cTcLength", 6), ("cLotNo", 15), ("cMtNo", 15), ("cTypeCode", 6),
   ("cOrderLen", 6), ("cOrderWei", 5), ("cMtTypeCd", 2), ("cMtStand", 30), ("cMtStGrad", 16),
   ("cMtSpecCd", 30), ("cMtLength", 6), ("cRfChaTem", 4), ("cRfTime", 6), ("cBdTime", 6), ("cFMSpeed", 4),
   ("cSacsUseM", 1), ("cChargeIn", 1), ("cTopCropLen", 4), ("cBtmCropLen", 4), ("cNomalH", 4),
   ("cNomalB", 4), ("cStandSize1", 4), ("cStandSize2", 4), ("cStandSize3", 3), ("cStandSize4", 3),
   ("cStandSize5", 3), ("cStandSize6", 3), ("cDSCutCoun", 1), ("cFMLength", 6), ("cSpare", 292)]

/-- `_type_dk_lv2_mf_clear`, TC code 1098. -/
def lv2MfClear : Layout := [("cTcCode", 4), ("cDate", 14), ("cTcLength", 6), ("cSpare", 26)]

/-- `_type_dk_lv2_mf_alive`, TC code 1099. -/
def lv2MfAlive : Layout := [("cTcCode", 4), ("cDate", 14), ("cTcLength", 6), ("cCount", 4), ("cSpare", 22)]

/-- `_type_dk_lv2_defect_labeled`, TC code 1002. -/
def lv2DefectLabeled : Layout :=
  [("cTcCode", 4), ("cDate", 14), ("cTcLength", 6), ("cMtNo", 15), ("cMea_Image1", 60), ("cMea_Image2", 60),
   ("cMea_Image3", 60), ("cMea_Image4", 60), ("cMea_Image5", 60), ("cMea_Image6", 60), ("cMea_Image7", 60),
   ("cMea_Image8", 60), ("cMea_Image9", 60), ("cMea_Image10", 60), ("cMea_Image11", 60),
   ("cMea_Image12", 60), ("cMea_Image13", 60), ("cMea_Image14", 60), ("cMea_Image15", 60), ("cSpare", 60)]

/-- `_type_dk_sdd_alive`, TC code 1199. -/
def sddAlive : Layout :=
  [("cTcCode", 4), ("cDate", 14), ("cTcLength", 6), ("cCount", 4), ("cWork", 2), ("cSpare", 20)]

/-- `_type_dk_sdd_alarm`, TC code 1198. -/
def sddAlarm : Layout := [("cTcCode", 4), ("cDate", 14), ("cTcLength", 6), ("cMessage", 3), ("cSpare", 23)]

/-- `_type_dk_sdd_job_result`, TC code 1101. The last member holds 60 defects. -/
def sddJobResult : Layout :=
  [("cTcCode", 4), ("cDate", 14), ("cTcLength", 6), ("cLotNo", 15), ("cMtNo", 15), ("cMtTypeCd", 2),
   ("cMtStand", 30), ("cCount", 4), ("cRst", 720)]

/-- `_type_dk_sdd_job_complete`, TC code 1101. -/
def sddJobComplete : Layout :=
  [("cTcCode", 4), ("cDate", 14), ("cTcLength", 6), ("cLotNo", 15), ("cMtNo", 15), ("cMtTypeCd", 2),
   ("cMtStand", 30), ("cCount", 5), ("cSpare", 10)]

/-- The sizes the receiver compares a packet with. -/
theorem sizes : sizeof lv2MfInstruction = 512 ∧ sizeof lv2DefectLabeled = 999 ∧ sizeof lv2MfClear = 50 ∧
    sizeof lv2MfAlive = 50 := by decide

end FlameSdd.Protocol
