/-
  File:      GrammarMatch/Unicode/CategoryData.lean
  Subject:   The runs of code points that share a general category, Unicode 14.0.0.

  The code space falls into 3968 runs. A record is eight hexadecimal
  digits: six for the first code point of the run, two for the number of its
  category in `Category.all`; ten records make a row, the first one leftmost.
-/
namespace GrammarMatch.Unicode

/-- A table of runs, several records to a row. -/
structure RunTable where
  /-- The rows, each a number whose hexadecimal digits are its records. -/
  rows : Array Nat
  /-- How many records a row holds. -/
  perRow : Nat
  /-- How many records there are; the last row may end in zeros. -/
  size : Nat

namespace RunTable

/-- Record `i` as a number of 32 bits. -/
def record (t : RunTable) (i : Nat) : Nat :=
  ((t.rows[i / t.perRow]?.getD 0) >>> (32 * (t.perRow - 1 - i % t.perRow))) % 0x100000000

/-- The first code point of run `i`. -/
def start (t : RunTable) (i : Nat) : Nat := t.record i / 0x100

/-- The value that every code point of run `i` has. -/
def value (t : RunTable) (i : Nat) : Nat := t.record i % 0x100

/-- The jumps of a binary search over at most 4096 records. -/
def jumps : List Nat := [2048, 1024, 512, 256, 128, 64, 32, 16, 8, 4, 2, 1]

/-- The last run that starts at or before code point `n`: every jump is
    taken that does not overshoot. -/
def locate (t : RunTable) (n : Nat) : Nat :=
  jumps.foldl (fun i jump => if i + jump < t.size && t.start (i + jump) ≤ n then i + jump else i) 0

/-- The value of code point `n`. -/
def lookup (t : RunTable) (n : Nat) : Nat := t.value (t.locate n)

end RunTable

/-- The runs of the general category. -/
def categoryRuns : RunTable where
  perRow := 10
  size := 3968
  rows := #[
   0x00000019000020160000211100002413000025110000280d0000290e00002a1100002b1200002c11,
   0x00002d0c00002e110000300800003a1100003c1200003f110000410000005b0d00005c1100005d0e,
   0x00005e1400005f0b000060140000610100007b0d00007c1200007d0e00007e1200007f190000a016,
   0x0000a1110000a2130000a6150000a7110000a8140000a9150000aa040000ab0f0000ac120000ad1a,
   0x0000ae150000af140000b0150000b1120000b20a0000b4140000b5010000b6110000b8140000b90a,
   0x0000ba040000bb100000bc0a0000bf110000c0000000d7120000d8000000df010000f7120000f801,
   0x00010000000101010001020000010301000104000001050100010600000107010001080000010901,
   0x00010a0000010b0100010c0000010d0100010e0000010f0100011000000111010001120000011301,
   0x00011400000115010001160000011701000118000001190100011a0000011b0100011c0000011d01,
   0x00011e0000011f010001200000012101000122000001230100012400000125010001260000012701,
   0x000128000001290100012a0000012b0100012c0000012d0100012e0000012f010001300000013101,
   0x0001320000013301000134000001350100013600000137010001390000013a0100013b0000013c01,
   0x00013d0000013e0100013f0000014001000141000001420100014300000144010001450000014601,
   0x000147000001480100014a0000014b0100014c0000014d0100014e0000014f010001500000015101,
   0x000152000001530100015400000155010001560000015701000158000001590100015a0000015b01,
   0x00015c0000015d0100015e0000015f01000160000001610100016200000163010001640000016501,
   0x0001660000016701000168000001690100016a0000016b0100016c0000016d0100016e0000016f01,
   0x00017000000171010001720000017301000174000001750100017600000177010001780000017a01,
   0x00017b0000017c0100017d0000017e01000181000001830100018400000185010001860000018801,
   0x0001890000018c0100018e00000192010001930000019501000196000001990100019c0000019e01,
   0x00019f000001a1010001a2000001a3010001a4000001a5010001a6000001a8010001a9000001aa01,
   0x0001ac000001ad010001ae000001b0010001b1000001b4010001b5000001b6010001b7000001b901,
   0x0001bb040001bc000001bd010001c0040001c4000001c5020001c6010001c7000001c8020001c901,
   0x0001ca000001cb020001cc010001cd000001ce010001cf000001d0010001d1000001d2010001d300,
   0x0001d4010001d5000001d6010001d7000001d8010001d9000001da010001db000001dc010001de00,
   0x0001df010001e0000001e1010001e2000001e3010001e4000001e5010001e6000001e7010001e800,
   0x0001e9010001ea000001eb010001ec000001ed010001ee000001ef010001f1000001f2020001f301,
   0x0001f4000001f5010001f6000001f9010001fa000001fb010001fc000001fd010001fe000001ff01,
   0x00020000000201010002020000020301000204000002050100020600000207010002080000020901,
   0x00020a0000020b0100020c0000020d0100020e0000020f0100021000000211010002120000021301,
   0x00021400000215010002160000021701000218000002190100021a0000021b0100021c0000021d01,
   0x00021e0000021f010002200000022101000222000002230100022400000225010002260000022701,
   0x000228000002290100022a0000022b0100022c0000022d0100022e0000022f010002300000023101,
   0x000232000002330100023a0000023c0100023d0000023f0100024100000242010002430000024701,
   0x000248000002490100024a0000024b0100024c0000024d0100024e0000024f010002940400029501,
   0x0002b0030002c2140002c6030002d2140002e0030002e5140002ec030002ed140002ee030002ef14,
   0x0003000500037000000371010003720000037301000374030003751400037600000377010003781d,
   0x00037a0300037b0100037e1100037f000003801d0003841400038600000387110003880000038b1d,
   0x00038c0000038d1d00038e0000039001000391000003a21d0003a3000003ac010003cf000003d001,
   0x0003d2000003d5010003d8000003d9010003da000003db010003dc000003dd010003de000003df01,
   0x0003e0000003e1010003e2000003e3010003e4000003e5010003e6000003e7010003e8000003e901,
   0x0003ea000003eb010003ec000003ed010003ee000003ef010003f4000003f5010003f6120003f700,
   0x0003f8010003f9000003fb010003fd00000430010004600000046101000462000004630100046400,
   0x000465010004660000046701000468000004690100046a0000046b0100046c0000046d0100046e00,
   0x00046f01000470000004710100047200000473010004740000047501000476000004770100047800,
   0x0004790100047a0000047b0100047c0000047d0100047e0000047f01000480000004810100048215,
   0x000483050004880700048a0000048b0100048c0000048d0100048e0000048f010004900000049101,
   0x000492000004930100049400000495010004960000049701000498000004990100049a0000049b01,
   0x00049c0000049d0100049e0000049f010004a0000004a1010004a2000004a3010004a4000004a501,
   0x0004a6000004a7010004a8000004a9010004aa000004ab010004ac000004ad010004ae000004af01,
   0x0004b0000004b1010004b2000004b3010004b4000004b5010004b6000004b7010004b8000004b901,
   0x0004ba000004bb010004bc000004bd010004be000004bf010004c0000004c2010004c3000004c401,
   0x0004c5000004c6010004c7000004c8010004c9000004ca010004cb000004cc010004cd000004ce01,
   0x0004d0000004d1010004d2000004d3010004d4000004d5010004d6000004d7010004d8000004d901,
   0x0004da000004db010004dc000004dd010004de000004df010004e0000004e1010004e2000004e301,
   0x0004e4000004e5010004e6000004e7010004e8000004e9010004ea000004eb010004ec000004ed01,
   0x0004ee000004ef010004f0000004f1010004f2000004f3010004f4000004f5010004f6000004f701,
   0x0004f8000004f9010004fa000004fb010004fc000004fd010004fe000004ff010005000000050101,
   0x000502000005030100050400000505010005060000050701000508000005090100050a0000050b01,
   0x00050c0000050d0100050e0000050f01000510000005110100051200000513010005140000051501,
   0x0005160000051701000518000005190100051a0000051b0100051c0000051d0100051e0000051f01,
   0x00052000000521010005220000052301000524000005250100052600000527010005280000052901,
   0x00052a0000052b0100052c0000052d0100052e0000052f010005301d000531000005571d00055903,
   0x00055a11000560010005891100058a0c00058b1d00058d1500058f130005901d000591050005be0c,
   0x0005bf050005c0110005c1050005c3110005c4050005c6110005c7050005c81d0005d0040005eb1d,
   0x0005ef040005f3110005f51d0006001a000606120006091100060b1300060c1100060e1500061005,
   0x00061b1100061c1a00061d1100062004000640030006410400064b050006600800066a1100066e04,
   0x00067005000671040006d4110006d5040006d6050006dd1a0006de150006df050006e5030006e705,
   0x0006e9150006ea050006ee040006f0080006fa040006fd150006ff040007001100070e1d00070f1a,
   0x0007100400071105000712040007300500074b1d00074d040007a6050007b1040007b21d0007c008,
   0x0007ca040007eb050007f4030007f6150007f7110007fa030007fb1d0007fd050007fe1300080004,
   0x0008160500081a0300081b050008240300082505000828030008290500082e1d0008301100083f1d,
   0x000840040008590500085c1d00085e1100085f1d0008600400086b1d000870040008881400088904,
   0x00088f1d0008901a0008921d000898050008a0040008c9030008ca050008e21a0008e30500090306,
   0x0009040400093a0500093b0600093c0500093d0400093e06000941050009490600094d0500094e06,
   0x00095004000951050009580400096205000964110009660800097011000971030009720400098105,
   0x000982060009841d0009850400098d1d00098f040009911d000993040009a91d0009aa040009b11d,
   0x0009b2040009b31d0009b6040009ba1d0009bc050009bd040009be060009c1050009c51d0009c706,
   0x0009c91d0009cb060009cd050009ce040009cf1d0009d7060009d81d0009dc040009de1d0009df04,
   0x0009e2050009e41d0009e6080009f0040009f2130009f40a0009fa150009fb130009fc040009fd11,
   0x0009fe050009ff1d000a0105000a0306000a041d000a0504000a0b1d000a0f04000a111d000a1304,
   0x000a291d000a2a04000a311d000a3204000a341d000a3504000a371d000a3804000a3a1d000a3c05,
   0x000a3d1d000a3e06000a4105000a431d000a4705000a491d000a4b05000a4e1d000a5105000a521d,
   0x000a5904000a5d1d000a5e04000a5f1d000a6608000a7005000a7204000a7505000a7611000a771d,
   0x000a8105000a8306000a841d000a8504000a8e1d000a8f04000a921d000a9304000aa91d000aaa04,
   0x000ab11d000ab204000ab41d000ab504000aba1d000abc05000abd04000abe06000ac105000ac61d,
   0x000ac705000ac906000aca1d000acb06000acd05000ace1d000ad004000ad11d000ae004000ae205,
   0x000ae41d000ae608000af011000af113000af21d000af904000afa05000b001d000b0105000b0206,
   0x000b041d000b0504000b0d1d000b0f04000b111d000b1304000b291d000b2a04000b311d000b3204,
   0x000b341d000b3504000b3a1d000b3c05000b3d04000b3e06000b3f05000b4006000b4105000b451d,
   0x000b4706000b491d000b4b06000b4d05000b4e1d000b5505000b5706000b581d000b5c04000b5e1d,
   0x000b5f04000b6205000b641d000b6608000b7015000b7104000b720a000b781d000b8205000b8304,
   0x000b841d000b8504000b8b1d000b8e04000b911d000b9204000b961d000b9904000b9b1d000b9c04,
   0x000b9d1d000b9e04000ba01d000ba304000ba51d000ba804000bab1d000bae04000bba1d000bbe06,
   0x000bc005000bc106000bc31d000bc606000bc91d000bca06000bcd05000bce1d000bd004000bd11d,
   0x000bd706000bd81d000be608000bf00a000bf315000bf913000bfa15000bfb1d000c0005000c0106,
   0x000c0405000c0504000c0d1d000c0e04000c111d000c1204000c291d000c2a04000c3a1d000c3c05,
   0x000c3d04000c3e05000c4106000c451d000c4605000c491d000c4a05000c4e1d000c5505000c571d,
   0x000c5804000c5b1d000c5d04000c5e1d000c6004000c6205000c641d000c6608000c701d000c7711,
   0x000c780a000c7f15000c8004000c8105000c8206000c8411000c8504000c8d1d000c8e04000c911d,
   0x000c9204000ca91d000caa04000cb41d000cb504000cba1d000cbc05000cbd04000cbe06000cbf05,
   0x000cc006000cc51d000cc605000cc706000cc91d000cca06000ccc05000cce1d000cd506000cd71d,
   0x000cdd04000cdf1d000ce004000ce205000ce41d000ce608000cf01d000cf104000cf31d000d0005,
   0x000d0206000d0404000d0d1d000d0e04000d111d000d1204000d3b05000d3d04000d3e06000d4105,
   0x000d451d000d4606000d491d000d4a06000d4d05000d4e04000d4f15000d501d000d5404000d5706,
   0x000d580a000d5f04000d6205000d641d000d6608000d700a000d7915000d7a04000d801d000d8105,
   0x000d8206000d841d000d8504000d971d000d9a04000db21d000db304000dbc1d000dbd04000dbe1d,
   0x000dc004000dc71d000dca05000dcb1d000dcf06000dd205000dd51d000dd605000dd71d000dd806,
   0x000de01d000de608000df01d000df206000df411000df51d000e0104000e3105000e3204000e3405,
   0x000e3b1d000e3f13000e4004000e4603000e4705000e4f11000e5008000e5a11000e5c1d000e8104,
   0x000e831d000e8404000e851d000e8604000e8b1d000e8c04000ea41d000ea504000ea61d000ea704,
   0x000eb105000eb204000eb405000ebd04000ebe1d000ec004000ec51d000ec603000ec71d000ec805,
   0x000ece1d000ed008000eda1d000edc04000ee01d000f0004000f0115000f0411000f1315000f1411,
   0x000f1515000f1805000f1a15000f2008000f2a0a000f3415000f3505000f3615000f3705000f3815,
   0x000f3905000f3a0d000f3b0e000f3c0d000f3d0e000f3e06000f4004000f481d000f4904000f6d1d,
   0x000f7105000f7f06000f8005000f8511000f8605000f8804000f8d05000f981d000f9905000fbd1d,
   0x000fbe15000fc605000fc715000fcd1d000fce15000fd011000fd515000fd911000fdb1d00100004,
   0x00102b0600102d050010310600103205001038060010390500103b0600103d0500103f0400104008,
   0x00104a1100105004001056060010580500105a0400105e0500106104001062060010650400106706,
   0x00106e0400107105001075040010820500108306001085050010870600108d0500108e0400108f06,
   0x0010900800109a0600109d0500109e150010a0000010c61d0010c7000010c81d0010cd000010ce1d,
   0x0010d0010010fb110010fc030010fd01001100040012491d00124a0400124e1d001250040012571d,
   0x001258040012591d00125a0400125e1d001260040012891d00128a0400128e1d001290040012b11d,
   0x0012b2040012b61d0012b8040012bf1d0012c0040012c11d0012c2040012c61d0012c8040012d71d,
   0x0012d8040013111d001312040013161d0013180400135b1d00135d05001360110013690a00137d1d,
   0x001380040013901500139a1d0013a0000013f61d0013f8010013fe1d0014000c0014010400166d15,
   0x00166e1100166f04001680160016810400169b0d00169c0e00169d1d0016a0040016eb110016ee09,
   0x0016f1040016f91d0017000400171205001715060017161d00171f04001732050017340600173511,
   0x0017371d00174004001752050017541d0017600400176d1d00176e040017711d001772050017741d,
   0x001780040017b4050017b6060017b7050017be060017c6050017c7060017c9050017d4110017d703,
   0x0017d8110017db130017dc040017dd050017de1d0017e0080017ea1d0017f00a0017fa1d00180011,
   0x0018060c0018071100180b0500180e1a00180f050018100800181a1d001820040018430300184404,
   0x0018791d0018800400188505001887040018a9050018aa040018ab1d0018b0040018f61d00190004,
   0x00191f1d0019200500192306001927050019290600192c1d00193006001932050019330600193905,
   0x00193c1d001940150019411d00194411001946080019500400196e1d001970040019751d00198004,
   0x0019ac1d0019b0040019ca1d0019d0080019da0a0019db1d0019de15001a0004001a1705001a1906,
   0x001a1b05001a1c1d001a1e11001a2004001a5506001a5605001a5706001a5805001a5f1d001a6005,
   0x001a6106001a6205001a6306001a6505001a6d06001a7305001a7d1d001a7f05001a8008001a8a1d,
   0x001a9008001a9a1d001aa011001aa703001aa811001aae1d001ab005001abe07001abf05001acf1d,
   0x001b0005001b0406001b0504001b3405001b3506001b3605001b3b06001b3c05001b3d06001b4205,
   0x001b4306001b4504001b4d1d001b5008001b5a11001b6115001b6b05001b7415001b7d11001b7f1d,
   0x001b8005001b8206001b8304001ba106001ba205001ba606001ba805001baa06001bab05001bae04,
   0x001bb008001bba04001be605001be706001be805001bea06001bed05001bee06001bef05001bf206,
   0x001bf41d001bfc11001c0004001c2406001c2c05001c3406001c3605001c381d001c3b11001c4008,
   0x001c4a1d001c4d04001c5008001c5a04001c7803001c7e11001c8001001c891d001c9000001cbb1d,
   0x001cbd00001cc011001cc81d001cd005001cd311001cd405001ce106001ce205001ce904001ced05,
   0x001cee04001cf405001cf504001cf706001cf805001cfa04001cfb1d001d0001001d2c03001d6b01,
   0x001d7803001d7901001d9b03001dc005001e0000001e0101001e0200001e0301001e0400001e0501,
   0x001e0600001e0701001e0800001e0901001e0a00001e0b01001e0c00001e0d01001e0e00001e0f01,
   0x001e1000001e1101001e1200001e1301001e1400001e1501001e1600001e1701001e1800001e1901,
   0x001e1a00001e1b01001e1c00001e1d01001e1e00001e1f01001e2000001e2101001e2200001e2301,
   0x001e2400001e2501001e2600001e2701001e2800001e2901001e2a00001e2b01001e2c00001e2d01,
   0x001e2e00001e2f01001e3000001e3101001e3200001e3301001e3400001e3501001e3600001e3701,
   0x001e3800001e3901001e3a00001e3b01001e3c00001e3d01001e3e00001e3f01001e4000001e4101,
   0x001e4200001e4301001e4400001e4501001e4600001e4701001e4800001e4901001e4a00001e4b01,
   0x001e4c00001e4d01001e4e00001e4f01001e5000001e5101001e5200001e5301001e5400001e5501,
   0x001e5600001e5701001e5800001e5901001e5a00001e5b01001e5c00001e5d01001e5e00001e5f01,
   0x001e6000001e6101001e6200001e6301001e6400001e6501001e6600001e6701001e6800001e6901,
   0x001e6a00001e6b01001e6c00001e6d01001e6e00001e6f01001e7000001e7101001e7200001e7301,
   0x001e7400001e7501001e7600001e7701001e7800001e7901001e7a00001e7b01001e7c00001e7d01,
   0x001e7e00001e7f01001e8000001e8101001e8200001e8301001e8400001e8501001e8600001e8701,
   0x001e8800001e8901001e8a00001e8b01001e8c00001e8d01001e8e00001e8f01001e9000001e9101,
   0x001e9200001e9301001e9400001e9501001e9e00001e9f01001ea000001ea101001ea200001ea301,
   0x001ea400001ea501001ea600001ea701001ea800001ea901001eaa00001eab01001eac00001ead01,
   0x001eae00001eaf01001eb000001eb101001eb200001eb301001eb400001eb501001eb600001eb701,
   0x001eb800001eb901001eba00001ebb01001ebc00001ebd01001ebe00001ebf01001ec000001ec101,
   0x001ec200001ec301001ec400001ec501001ec600001ec701001ec800001ec901001eca00001ecb01,
   0x001ecc00001ecd01001ece00001ecf01001ed000001ed101001ed200001ed301001ed400001ed501,
   0x001ed600001ed701001ed800001ed901001eda00001edb01001edc00001edd01001ede00001edf01,
   0x001ee000001ee101001ee200001ee301001ee400001ee501001ee600001ee701001ee800001ee901,
   0x001eea00001eeb01001eec00001eed01001eee00001eef01001ef000001ef101001ef200001ef301,
   0x001ef400001ef501001ef600001ef701001ef800001ef901001efa00001efb01001efc00001efd01,
   0x001efe00001eff01001f0800001f1001001f161d001f1800001f1e1d001f2001001f2800001f3001,
   0x001f3800001f4001001f461d001f4800001f4e1d001f5001001f581d001f5900001f5a1d001f5b00,
   0x001f5c1d001f5d00001f5e1d001f5f00001f6001001f6800001f7001001f7e1d001f8001001f8802,
   0x001f9001001f9802001fa001001fa802001fb001001fb51d001fb601001fb800001fbc02001fbd14,
   0x001fbe01001fbf14001fc201001fc51d001fc601001fc800001fcc02001fcd14001fd001001fd41d,
   0x001fd601001fd800001fdc1d001fdd14001fe001001fe800001fed14001ff01d001ff201001ff51d,
   0x001ff601001ff800001ffc02001ffd14001fff1d0020001600200b1a0020100c002016110020180f,
   0x0020191000201a0d00201b0f00201d1000201e0d00201f0f00202011002028170020291800202a1a,
   0x00202f16002030110020390f00203a1000203b1100203f0b00204111002044120020450d0020460e,
   0x0020471100205212002053110020540b0020551100205f160020601a0020651d0020661a0020700a,
   0x002071030020721d0020740a00207a1200207d0d00207e0e00207f030020800a00208a1200208d0d,
   0x00208e0e00208f1d0020900300209d1d0020a0130020c11d0020d0050020dd070020e1050020e207,
   0x0020e5050020f11d002100150021020000210315002107000021081500210a0100210b0000210e01,
   0x0021100000211301002114150021150000211615002118120021190000211e150021240000212515,
   0x0021260000212715002128000021291500212a0000212e1500212f01002130000021340100213504,
   0x0021390100213a1500213c0100213e0000214012002145000021460100214a1500214b1200214c15,
   0x00214e0100214f150021500a002160090021830000218401002185090021890a00218a1500218c1d,
   0x002190120021951500219a1200219c150021a0120021a1150021a3120021a4150021a6120021a715,
   0x0021ae120021af150021ce120021d0150021d2120021d3150021d4120021d5150021f41200230015,
   0x0023080d0023090e00230a0d00230b0e00230c1500232012002322150023290d00232a0e00232b15,
   0x00237c1200237d1500239b120023b4150023dc120023e2150024271d0024401500244b1d0024600a,
   0x00249c150024ea0a002500150025b7120025b8150025c1120025c2150025f8120026001500266f12,
   0x002670150027680d0027690e00276a0d00276b0e00276c0d00276d0e00276e0d00276f0e0027700d,
   0x0027710e0027720d0027730e0027740d0027750e0027760a002794150027c0120027c50d0027c60e,
   0x0027c7120027e60d0027e70e0027e80d0027e90e0027ea0d0027eb0e0027ec0d0027ed0e0027ee0d,
   0x0027ef0e0027f01200280015002900120029830d0029840e0029850d0029860e0029870d0029880e,
   0x0029890d00298a0e00298b0d00298c0e00298d0d00298e0e00298f0d0029900e0029910d0029920e,
   0x0029930d0029940e0029950d0029960e0029970d0029980e002999120029d80d0029d90e0029da0d,
   0x0029db0e0029dc120029fc0d0029fd0e0029fe12002b0015002b3012002b4515002b4712002b4d15,
   0x002b741d002b7615002b961d002b9715002c0000002c3001002c6000002c6101002c6200002c6501,
   0x002c6700002c6801002c6900002c6a01002c6b00002c6c01002c6d00002c7101002c7200002c7301,
   0x002c7500002c7601002c7c03002c7e00002c8101002c8200002c8301002c8400002c8501002c8600,
   0x002c8701002c8800002c8901002c8a00002c8b01002c8c00002c8d01002c8e00002c8f01002c9000,
   0x002c9101002c9200002c9301002c9400002c9501002c9600002c9701002c9800002c9901002c9a00,
   0x002c9b01002c9c00002c9d01002c9e00002c9f01002ca000002ca101002ca200002ca301002ca400,
   0x002ca501002ca600002ca701002ca800002ca901002caa00002cab01002cac00002cad01002cae00,
   0x002caf01002cb000002cb101002cb200002cb301002cb400002cb501002cb600002cb701002cb800,
   0x002cb901002cba00002cbb01002cbc00002cbd01002cbe00002cbf01002cc000002cc101002cc200,
   0x002cc301002cc400002cc501002cc600002cc701002cc800002cc901002cca00002ccb01002ccc00,
   0x002ccd01002cce00002ccf01002cd000002cd101002cd200002cd301002cd400002cd501002cd600,
   0x002cd701002cd800002cd901002cda00002cdb01002cdc00002cdd01002cde00002cdf01002ce000,
   0x002ce101002ce200002ce301002ce515002ceb00002cec01002ced00002cee01002cef05002cf200,
   0x002cf301002cf41d002cf911002cfd0a002cfe11002d0001002d261d002d2701002d281d002d2d01,
   0x002d2e1d002d3004002d681d002d6f03002d7011002d711d002d7f05002d8004002d971d002da004,
   0x002da71d002da804002daf1d002db004002db71d002db804002dbf1d002dc004002dc71d002dc804,
   0x002dcf1d002dd004002dd71d002dd804002ddf1d002de005002e0011002e020f002e0310002e040f,
   0x002e0510002e0611002e090f002e0a10002e0b11002e0c0f002e0d10002e0e11002e170c002e1811,
   0x002e1a0c002e1b11002e1c0f002e1d10002e1e11002e200f002e2110002e220d002e230e002e240d,
   0x002e250e002e260d002e270e002e280d002e290e002e2a11002e2f03002e3011002e3a0c002e3c11,
   0x002e400c002e4111002e420d002e4311002e5015002e5211002e550d002e560e002e570d002e580e,
   0x002e590d002e5a0e002e5b0d002e5c0e002e5d0c002e5e1d002e8015002e9a1d002e9b15002ef41d,
   0x002f0015002fd61d002ff015002ffc1d003000160030011100300415003005030030060400300709,
   0x0030080d0030090e00300a0d00300b0e00300c0d00300d0e00300e0d00300f0e0030100d0030110e,
   0x003012150030140d0030150e0030160d0030170e0030180d0030190e00301a0d00301b0e00301c0c,
   0x00301d0d00301e0e003020150030210900302a0500302e060030300c003031030030361500303809,
   0x00303b0300303c0400303d1100303e150030401d003041040030971d0030990500309b1400309d03,
   0x00309f040030a00c0030a1040030fb110030fc030030ff040031001d003105040031301d00313104,
   0x00318f1d003190150031920a003196150031a0040031c0150031e41d0031f0040032001500321f1d,
   0x0032200a00322a150032480a003250150032510a003260150032800a00328a150032b10a0032c015,
   0x00340004004dc015004e000400a0150300a0160400a48d1d00a4901500a4c71d00a4d00400a4f803,
   0x00a4fe1100a5000400a60c0300a60d1100a6100400a6200800a62a0400a62c1d00a6400000a64101,
   0x00a6420000a6430100a6440000a6450100a6460000a6470100a6480000a6490100a64a0000a64b01,
   0x00a64c0000a64d0100a64e0000a64f0100a6500000a6510100a6520000a6530100a6540000a65501,
   0x00a6560000a6570100a6580000a6590100a65a0000a65b0100a65c0000a65d0100a65e0000a65f01,
   0x00a6600000a6610100a6620000a6630100a6640000a6650100a6660000a6670100a6680000a66901,
   0x00a66a0000a66b0100a66c0000a66d0100a66e0400a66f0500a6700700a6731100a6740500a67e11,
   0x00a67f0300a6800000a6810100a6820000a6830100a6840000a6850100a6860000a6870100a68800,
   0x00a6890100a68a0000a68b0100a68c0000a68d0100a68e0000a68f0100a6900000a6910100a69200,
   0x00a6930100a6940000a6950100a6960000a6970100a6980000a6990100a69a0000a69b0100a69c03,
   0x00a69e0500a6a00400a6e60900a6f00500a6f21100a6f81d00a7001400a7170300a7201400a72200,
   0x00a7230100a7240000a7250100a7260000a7270100a7280000a7290100a72a0000a72b0100a72c00,
   0x00a72d0100a72e0000a72f0100a7320000a7330100a7340000a7350100a7360000a7370100a73800,
   0x00a7390100a73a0000a73b0100a73c0000a73d0100a73e0000a73f0100a7400000a7410100a74200,
   0x00a7430100a7440000a7450100a7460000a7470100a7480000a7490100a74a0000a74b0100a74c00,
   0x00a74d0100a74e0000a74f0100a7500000a7510100a7520000a7530100a7540000a7550100a75600,
   0x00a7570100a7580000a7590100a75a0000a75b0100a75c0000a75d0100a75e0000a75f0100a76000,
   0x00a7610100a7620000a7630100a7640000a7650100a7660000a7670100a7680000a7690100a76a00,
   0x00a76b0100a76c0000a76d0100a76e0000a76f0100a7700300a7710100a7790000a77a0100a77b00,
   0x00a77c0100a77d0000a77f0100a7800000a7810100a7820000a7830100a7840000a7850100a78600,
   0x00a7870100a7880300a7891400a78b0000a78c0100a78d0000a78e0100a78f0400a7900000a79101,
   0x00a7920000a7930100a7960000a7970100a7980000a7990100a79a0000a79b0100a79c0000a79d01,
   0x00a79e0000a79f0100a7a00000a7a10100a7a20000a7a30100a7a40000a7a50100a7a60000a7a701,
   0x00a7a80000a7a90100a7aa0000a7af0100a7b00000a7b50100a7b60000a7b70100a7b80000a7b901,
   0x00a7ba0000a7bb0100a7bc0000a7bd0100a7be0000a7bf0100a7c00000a7c10100a7c20000a7c301,
   0x00a7c40000a7c80100a7c90000a7ca0100a7cb1d00a7d00000a7d10100a7d21d00a7d30100a7d41d,
   0x00a7d50100a7d60000a7d70100a7d80000a7d90100a7da1d00a7f20300a7f50000a7f60100a7f704,
   0x00a7f80300a7fa0100a7fb0400a8020500a8030400a8060500a8070400a80b0500a80c0400a82306,
   0x00a8250500a8270600a8281500a82c0500a82d1d00a8300a00a8361500a8381300a8391500a83a1d,
   0x00a8400400a8741100a8781d00a8800600a8820400a8b40600a8c40500a8c61d00a8ce1100a8d008,
   0x00a8da1d00a8e00500a8f20400a8f81100a8fb0400a8fc1100a8fd0400a8ff0500a9000800a90a04,
   0x00a9260500a92e1100a9300400a9470500a9520600a9541d00a95f1100a9600400a97d1d00a98005,
   0x00a9830600a9840400a9b30500a9b40600a9b60500a9ba0600a9bc0500a9be0600a9c11100a9ce1d,
   0x00a9cf0300a9d00800a9da1d00a9de1100a9e00400a9e50500a9e60300a9e70400a9f00800a9fa04,
   0x00a9ff1d00aa000400aa290500aa2f0600aa310500aa330600aa350500aa371d00aa400400aa4305,
   0x00aa440400aa4c0500aa4d0600aa4e1d00aa500800aa5a1d00aa5c1100aa600400aa700300aa7104,
   0x00aa771500aa7a0400aa7b0600aa7c0500aa7d0600aa7e0400aab00500aab10400aab20500aab504,
   0x00aab70500aab90400aabe0500aac00400aac10500aac20400aac31d00aadb0400aadd0300aade11,
   0x00aae00400aaeb0600aaec0500aaee0600aaf01100aaf20400aaf30300aaf50600aaf60500aaf71d,
   0x00ab010400ab071d00ab090400ab0f1d00ab110400ab171d00ab200400ab271d00ab280400ab2f1d,
   0x00ab300100ab5b1400ab5c0300ab600100ab690300ab6a1400ab6c1d00ab700100abc00400abe306,
   0x00abe50500abe60600abe80500abe90600abeb1100abec0600abed0500abee1d00abf00800abfa1d,
   0x00ac000400d7a41d00d7b00400d7c71d00d7cb0400d7fc1d00d8001b00e0001c00f9000400fa6e1d,
   0x00fa700400fada1d00fb000100fb071d00fb130100fb181d00fb1d0400fb1e0500fb1f0400fb2912,
   0x00fb2a0400fb371d00fb380400fb3d1d00fb3e0400fb3f1d00fb400400fb421d00fb430400fb451d,
   0x00fb460400fbb21400fbc31d00fbd30400fd3e0e00fd3f0d00fd401500fd500400fd901d00fd9204,
   0x00fdc81d00fdcf1500fdd01d00fdf00400fdfc1300fdfd1500fe000500fe101100fe170d00fe180e,
   0x00fe191100fe1a1d00fe200500fe301100fe310c00fe330b00fe350d00fe360e00fe370d00fe380e,
   0x00fe390d00fe3a0e00fe3b0d00fe3c0e00fe3d0d00fe3e0e00fe3f0d00fe400e00fe410d00fe420e,
   0x00fe430d00fe440e00fe451100fe470d00fe480e00fe491100fe4d0b00fe501100fe531d00fe5411,
   0x00fe580c00fe590d00fe5a0e00fe5b0d00fe5c0e00fe5d0d00fe5e0e00fe5f1100fe621200fe630c,
   0x00fe641200fe671d00fe681100fe691300fe6a1100fe6c1d00fe700400fe751d00fe760400fefd1d,
   0x00feff1a00ff001d00ff011100ff041300ff051100ff080d00ff090e00ff0a1100ff0b1200ff0c11,
   0x00ff0d0c00ff0e1100ff100800ff1a1100ff1c1200ff1f1100ff210000ff3b0d00ff3c1100ff3d0e,
   0x00ff3e1400ff3f0b00ff401400ff410100ff5b0d00ff5c1200ff5d0e00ff5e1200ff5f0d00ff600e,
   0x00ff611100ff620d00ff630e00ff641100ff660400ff700300ff710400ff9e0300ffa00400ffbf1d,
   0x00ffc20400ffc81d00ffca0400ffd01d00ffd20400ffd81d00ffda0400ffdd1d00ffe01300ffe212,
   0x00ffe31400ffe41500ffe51300ffe71d00ffe81500ffe91200ffed1500ffef1d00fff91a00fffc15,
   0x00fffe1d0100000401000c1d01000d040100271d0100280401003b1d01003c0401003e1d01003f04,
   0x01004e1d0100500401005e1d010080040100fb1d010100110101031d0101070a0101341d01013715,
   0x010140090101750a0101791501018a0a01018c1501018f1d0101901501019d1d0101a0150101a11d,
   0x0101d0150101fd050101fe1d0102800401029d1d0102a0040102d11d0102e0050102e10a0102fc1d,
   0x010300040103200a0103241d01032d04010341090103420401034a0901034b1d0103500401037605,
   0x01037b1d0103800401039e1d01039f110103a0040103c41d0103c8040103d0110103d1090103d61d,
   0x01040000010428010104500401049e1d0104a0080104aa1d0104b0000104d41d0104d8010104fc1d,
   0x010500040105281d010530040105641d01056f110105700001057b1d01057c0001058b1d01058c00,
   0x0105931d010594000105961d010597010105a21d0105a3010105b21d0105b3010105ba1d0105bb01,
   0x0105bd1d010600040107371d010740040107561d010760040107681d010780030107861d01078703,
   0x0107b11d0107b2030107bb1d010800040108061d010808040108091d01080a040108361d01083704,
   0x0108391d01083c0401083d1d01083f040108561d010857110108580a01086004010877150108790a,
   0x0108800401089f1d0108a70a0108b01d0108e0040108f31d0108f4040108f61d0108fb0a01090004,
   0x0109160a01091c1d01091f110109200401093a1d01093f110109401d010980040109b81d0109bc0a,
   0x0109be040109c00a0109d01d0109d20a010a0004010a0105010a041d010a0505010a071d010a0c05,
   0x010a1004010a141d010a1504010a181d010a1904010a361d010a3805010a3b1d010a3f05010a400a,
   0x010a491d010a5011010a591d010a6004010a7d0a010a7f11010a8004010a9d0a010aa01d010ac004,
   0x010ac815010ac904010ae505010ae71d010aeb0a010af011010af71d010b0004010b361d010b3911,
   0x010b4004010b561d010b580a010b6004010b731d010b780a010b8004010b921d010b9911010b9d1d,
   0x010ba90a010bb01d010c0004010c491d010c8000010cb31d010cc001010cf31d010cfa0a010d0004,
   0x010d2405010d281d010d3008010d3a1d010e600a010e7f1d010e8004010eaa1d010eab05010ead0c,
   0x010eae1d010eb004010eb21d010f0004010f1d0a010f2704010f281d010f3004010f4605010f510a,
   0x010f5511010f5a1d010f7004010f8205010f8611010f8a1d010fb004010fc50a010fcc1d010fe004,
   0x010ff71d01100006011001050110020601100304011038050110471101104e1d0110520a01106608,
   0x011070050110710401107305011075040110761d01107f0501108206011083040110b0060110b305,
   0x0110b7060110b9050110bb110110bd1a0110be110110c2050110c31d0110cd1a0110ce1d0110d004,
   0x0110e91d0110f0080110fa1d01110005011103040111270501112c0601112d050111351d01113608,
   0x011140110111440401114506011147040111481d011150040111730501117411011176040111771d,
   0x0111800501118206011183040111b3060111b6050111bf060111c1040111c5110111c9050111cd11,
   0x0111ce060111cf050111d0080111da040111db110111dc040111dd110111e01d0111e10a0111f51d,
   0x011200040112121d0112130401122c0601122f050112320601123405011235060112360501123811,
   0x01123e0501123f1d011280040112871d011288040112891d01128a0401128e1d01128f0401129e1d,
   0x01129f040112a9110112aa1d0112b0040112df050112e0060112e3050112eb1d0112f0080112fa1d,
   0x01130005011302060113041d0113050401130d1d01130f040113111d011313040113291d01132a04,
   0x0113311d011332040113341d0113350401133a1d01133b0501133d0401133e060113400501134106,
   0x0113451d011347060113491d01134b0601134e1d011350040113511d011357060113581d01135d04,
   0x011362060113641d0113660501136d1d011370050113751d01140004011435060114380501144006,
   0x0114420501144506011446050114470401144b110114500801145a1101145c1d01145d1101145e05,
   0x01145f040114621d011480040114b0060114b3050114b9060114ba050114bb060114bf050114c106,
   0x0114c2050114c4040114c6110114c7040114c81d0114d0080114da1d011580040115af060115b205,
   0x0115b61d0115b8060115bc050115be060115bf050115c1110115d8040115dc050115de1d01160004,
   0x011630060116330501163b0601163d0501163e0601163f0501164111011644040116451d01165008,
   0x01165a1d0116601101166d1d011680040116ab050116ac060116ad050116ae060116b0050116b606,
   0x0116b7050116b8040116b9110116ba1d0116c0080116ca1d0117000401171b1d01171d0501172006,
   0x01172205011726060117270501172c1d0117300801173a0a01173c1101173f15011740040117471d,
   0x0118000401182c0601182f05011838060118390501183b1101183c1d0118a0000118c0010118e008,
   0x0118ea0a0118f31d0118ff040119071d0119090401190a1d01190c040119141d011915040119171d,
   0x01191804011930060119361d011937060119391d01193b0501193d0601193e0501193f0401194006,
   0x011941040119420601194305011944110119471d0119500801195a1d0119a0040119a81d0119aa04,
   0x0119d1060119d4050119d81d0119da050119dc060119e0050119e1040119e2110119e3040119e406,
   0x0119e51d011a0004011a0105011a0b04011a3305011a3906011a3a04011a3b05011a3f11011a4705,
   0x011a481d011a5004011a5105011a5706011a5905011a5c04011a8a05011a9706011a9805011a9a11,
   0x011a9d04011a9e11011aa31d011ab004011af91d011c0004011c091d011c0a04011c2f06011c3005,
   0x011c371d011c3805011c3e06011c3f05011c4004011c4111011c461d011c5008011c5a0a011c6d1d,
   0x011c7011011c7204011c901d011c9205011ca81d011ca906011caa05011cb106011cb205011cb406,
   0x011cb505011cb71d011d0004011d071d011d0804011d0a1d011d0b04011d3105011d371d011d3a05,
   0x011d3b1d011d3c05011d3e1d011d3f05011d4604011d4705011d481d011d5008011d5a1d011d6004,
   0x011d661d011d6704011d691d011d6a04011d8a06011d8f1d011d9005011d921d011d9306011d9505,
   0x011d9606011d9705011d9804011d991d011da008011daa1d011ee004011ef305011ef506011ef711,
   0x011ef91d011fb004011fb11d011fc00a011fd515011fdd13011fe115011ff21d011fff1101200004,
   0x01239a1d0124000901246f1d012470110124751d012480040125441d012f9004012ff111012ff31d,
   0x0130000401342f1d0134301a0134391d014400040146471d01680004016a391d016a4004016a5f1d,
   0x016a6008016a6a1d016a6e11016a7004016abf1d016ac008016aca1d016ad004016aee1d016af005,
   0x016af511016af61d016b0004016b3005016b3711016b3c15016b4003016b4411016b4515016b461d,
   0x016b5008016b5a1d016b5b0a016b621d016b6304016b781d016b7d04016b901d016e4000016e6001,
   0x016e800a016e9711016e9b1d016f0004016f4b1d016f4f05016f5004016f5106016f881d016f8f05,
   0x016f9303016fa01d016fe003016fe211016fe303016fe405016fe51d016ff006016ff21d01700004,
   0x0187f81d01880004018cd61d018d0004018d091d01aff00301aff41d01aff50301affc1d01affd03,
   0x01afff1d01b0000401b1231d01b1500401b1531d01b1640401b1681d01b1700401b2fc1d01bc0004,
   0x01bc6b1d01bc700401bc7d1d01bc800401bc891d01bc900401bc9a1d01bc9c1501bc9d0501bc9f11,
   0x01bca01a01bca41d01cf000501cf2e1d01cf300501cf471d01cf501501cfc41d01d0001501d0f61d,
   0x01d1001501d1271d01d1291501d1650601d1670501d16a1501d16d0601d1731a01d17b0501d18315,
   0x01d1850501d18c1501d1aa0501d1ae1501d1eb1d01d2001501d2420501d2451501d2461d01d2e00a,
   0x01d2f41d01d3001501d3571d01d3600a01d3791d01d4000001d41a0101d4340001d44e0101d4551d,
   0x01d4560101d4680001d4820101d49c0001d49d1d01d49e0001d4a01d01d4a20001d4a31d01d4a500,
   0x01d4a71d01d4a90001d4ad1d01d4ae0001d4b60101d4ba1d01d4bb0101d4bc1d01d4bd0101d4c41d,
   0x01d4c50101d4d00001d4ea0101d5040001d5061d01d5070001d50b1d01d50d0001d5151d01d51600,
   0x01d51d1d01d51e0101d5380001d53a1d01d53b0001d53f1d01d5400001d5451d01d5460001d5471d,
   0x01d54a0001d5511d01d5520101d56c0001d5860101d5a00001d5ba0101d5d40001d5ee0101d60800,
   0x01d6220101d63c0001d6560101d6700001d68a0101d6a61d01d6a80001d6c11201d6c20101d6db12,
   0x01d6dc0101d6e20001d6fb1201d6fc0101d7151201d7160101d71c0001d7351201d7360101d74f12,
   0x01d7500101d7560001d76f1201d7700101d7891201d78a0101d7900001d7a91201d7aa0101d7c312,
   0x01d7c40101d7ca0001d7cb0101d7cc1d01d7ce0801d8001501da000501da371501da3b0501da6d15,
   0x01da750501da761501da840501da851501da871101da8c1d01da9b0501daa01d01daa10501dab01d,
   0x01df000101df0a0401df0b0101df1f1d01e0000501e0071d01e0080501e0191d01e01b0501e0221d,
   0x01e0230501e0251d01e0260501e02b1d01e1000401e12d1d01e1300501e1370301e13e1d01e14008,
   0x01e14a1d01e14e0401e14f1501e1501d01e2900401e2ae0501e2af1d01e2c00401e2ec0501e2f008,
   0x01e2fa1d01e2ff1301e3001d01e7e00401e7e71d01e7e80401e7ec1d01e7ed0401e7ef1d01e7f004,
   0x01e7ff1d01e8000401e8c51d01e8c70a01e8d00501e8d71d01e9000001e9220101e9440501e94b03,
   0x01e94c1d01e9500801e95a1d01e95e1101e9601d01ec710a01ecac1501ecad0a01ecb01301ecb10a,
   0x01ecb51d01ed010a01ed2e1501ed2f0a01ed3e1d01ee000401ee041d01ee050401ee201d01ee2104,
   0x01ee231d01ee240401ee251d01ee270401ee281d01ee290401ee331d01ee340401ee381d01ee3904,
   0x01ee3a1d01ee3b0401ee3c1d01ee420401ee431d01ee470401ee481d01ee490401ee4a1d01ee4b04,
   0x01ee4c1d01ee4d0401ee501d01ee510401ee531d01ee540401ee551d01ee570401ee581d01ee5904,
   0x01ee5a1d01ee5b0401ee5c1d01ee5d0401ee5e1d01ee5f0401ee601d01ee610401ee631d01ee6404,
   0x01ee651d01ee670401ee6b1d01ee6c0401ee731d01ee740401ee781d01ee790401ee7d1d01ee7e04,
   0x01ee7f1d01ee800401ee8a1d01ee8b0401ee9c1d01eea10401eea41d01eea50401eeaa1d01eeab04,
   0x01eebc1d01eef01201eef21d01f0001501f02c1d01f0301501f0941d01f0a01501f0af1d01f0b115,
   0x01f0c01d01f0c11501f0d01d01f0d11501f0f61d01f1000a01f10d1501f1ae1d01f1e61501f2031d,
   0x01f2101501f23c1d01f2401501f2491d01f2501501f2521d01f2601501f2661d01f3001501f3fb14,
   0x01f4001501f6d81d01f6dd1501f6ed1d01f6f01501f6fd1d01f7001501f7741d01f7801501f7d91d,
   0x01f7e01501f7ec1d01f7f01501f7f11d01f8001501f80c1d01f8101501f8481d01f8501501f85a1d,
   0x01f8601501f8881d01f8901501f8ae1d01f8b01501f8b21d01f9001501fa541d01fa601501fa6e1d,
   0x01fa701501fa751d01fa781501fa7d1d01fa801501fa871d01fa901501faad1d01fab01501fabb1d,
   0x01fac01501fac61d01fad01501fada1d01fae01501fae81d01faf01501faf71d01fb001501fb931d,
   0x01fb941501fbcb1d01fbf00801fbfa1d0200000402a6e01d02a7000402b7391d02b7400402b81e1d,
   0x02b8200402cea21d02ceb00402ebe11d02f8000402fa1e1d0300000403134b1d0e00011a0e00021d,
   0x0e00201a0e00801d0e0100050e01f01d0f00001c0ffffe1d1000001c10fffe1d0000000000000000]

end GrammarMatch.Unicode
