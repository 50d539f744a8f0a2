/-!
# Table of base characters

What is left of a character after canonical decomposition when the marks are taken away, for
characters that this changes. The entry `C0-C5=41` says that six letters are all based on `A`.
Hangul syllables are not listed, since they decompose by arithmetic.
-/

namespace TabStop.Table

/-- The base characters of precomposed characters. -/
def baseForms : String :=
  "C0-C5=41 C7=43 C8-CB=45 CC-CF=49 D1=4E D2-D6=4F D9-DC=55 DD=59 E0-E5=61 E7=63 E8-EB=65
   EC-EF=69 F1=6E F2-F6=6F F9-FC=75 FD=79 FF=79 100=41 101=61 102=41 103=61 104=41 105=61 106=43
   107=63 108=43 109=63 10A=43 10B=63 10C=43 10D=63 10E=44 10F=64 112=45 113=65 114=45 115=65
   116=45 117=65 118=45 119=65 11A=45 11B=65 11C=47 11D=67 11E=47 11F=67 120=47 121=67 122=47
   123=67 124=48 125=68 128=49 129=69 12A=49 12B=69 12C=49 12D=69 12E=49 12F=69 130=49 134=4A
   135=6A 136=4B 137=6B 139=4C 13A=6C 13B=4C 13C=6C 13D=4C 13E=6C 143=4E 144=6E 145=4E 146=6E
   147=4E 148=6E 14C=4F 14D=6F 14E=4F 14F=6F 150=4F 151=6F 154=52 155=72 156=52 157=72 158=52
   159=72 15A=53 15B=73 15C=53 15D=73 15E=53 15F=73 160=53 161=73 162=54 163=74 164=54 165=74
   168=55 169=75 16A=55 16B=75 16C=55 16D=75 16E=55 16F=75 170=55 171=75 172=55 173=75 174=57
   175=77 176=59 177=79 178=59 179=5A 17A=7A 17B=5A 17C=7A 17D=5A 17E=7A 1A0=4F 1A1=6F 1AF=55
   1B0=75 1CD=41 1CE=61 1CF=49 1D0=69 1D1=4F 1D2=6F 1D3=55 1D4=75 1D5=55 1D6=75 1D7=55 1D8=75
   1D9=55 1DA=75 1DB=55 1DC=75 1DE=41 1DF=61 1E0=41 1E1=61 1E2=C6 1E3=E6 1E6=47 1E7=67 1E8=4B
   1E9=6B 1EA=4F 1EB=6F 1EC=4F 1ED=6F 1EE=1B7 1EF=292 1F0=6A 1F4=47 1F5=67 1F8=4E 1F9=6E 1FA=41
   1FB=61 1FC=C6 1FD=E6 1FE=D8 1FF=F8 200=41 201=61 202=41 203=61 204=45 205=65 206=45 207=65
   208=49 209=69 20A=49 20B=69 20C=4F 20D=6F 20E=4F 20F=6F 210=52 211=72 212=52 213=72 214=55
   215=75 216=55 217=75 218=53 219=73 21A=54 21B=74 21E=48 21F=68 226=41 227=61 228=45 229=65
   22A=4F 22B=6F 22C=4F 22D=6F 22E=4F 22F=6F 230=4F 231=6F 232=59 233=79 374=2B9 37E=3B 385=A8
   386=391 387=B7 388=395 389=397 38A=399 38C=39F 38E=3A5 38F=3A9 390=3B9 3AA=399 3AB=3A5 3AC=3B1
   3AD=3B5 3AE=3B7 3AF=3B9 3B0=3C5 3CA=3B9 3CB=3C5 3CC=3BF 3CD=3C5 3CE=3C9 3D3-3D4=3D2
   400-401=415 403=413 407=406 40C=41A 40D=418 40E=423 419=418 439=438 450-451=435 453=433
   457=456 45C=43A 45D=438 45E=443 476=474 477=475 4C1=416 4C2=436 4D0=410 4D1=430 4D2=410
   4D3=430 4D6=415 4D7=435 4DA=4D8 4DB=4D9 4DC=416 4DD=436 4DE=417 4DF=437 4E2=418 4E3=438
   4E4=418 4E5=438 4E6=41E 4E7=43E 4EA=4E8 4EB=4E9 4EC=42D 4ED=44D 4EE=423 4EF=443 4F0=423
   4F1=443 4F2=423 4F3=443 4F4=427 4F5=447 4F8=42B 4F9=44B 622-623=627 624=648 625=627 626=64A
   6C0=6D5 6C2=6C1 6D3=6D2 929=928 931=930 934=933 958=915 959=916 95A=917 95B=91C 95C=921
   95D=922 95E=92B 95F=92F 9DC=9A1 9DD=9A2 9DF=9AF A33=A32 A36=A38 A59=A16 A5A=A17 A5B=A1C
   A5E=A2B B5C=B21 B5D=B22 B94=B92 F43=F42 F4D=F4C F52=F51 F57=F56 F5C=F5B F69=F40 1026=1025
   1B06=1B05 1B08=1B07 1B0A=1B09 1B0C=1B0B 1B0E=1B0D 1B12=1B11 1E00=41 1E01=61 1E02=42 1E03=62
   1E04=42 1E05=62 1E06=42 1E07=62 1E08=43 1E09=63 1E0A=44 1E0B=64 1E0C=44 1E0D=64 1E0E=44
   1E0F=64 1E10=44 1E11=64 1E12=44 1E13=64 1E14=45 1E15=65 1E16=45 1E17=65 1E18=45 1E19=65
   1E1A=45 1E1B=65 1E1C=45 1E1D=65 1E1E=46 1E1F=66 1E20=47 1E21=67 1E22=48 1E23=68 1E24=48
   1E25=68 1E26=48 1E27=68 1E28=48 1E29=68 1E2A=48 1E2B=68 1E2C=49 1E2D=69 1E2E=49 1E2F=69
   1E30=4B 1E31=6B 1E32=4B 1E33=6B 1E34=4B 1E35=6B 1E36=4C 1E37=6C 1E38=4C 1E39=6C 1E3A=4C
   1E3B=6C 1E3C=4C 1E3D=6C 1E3E=4D 1E3F=6D 1E40=4D 1E41=6D 1E42=4D 1E43=6D 1E44=4E 1E45=6E
   1E46=4E 1E47=6E 1E48=4E 1E49=6E 1E4A=4E 1E4B=6E 1E4C=4F 1E4D=6F 1E4E=4F 1E4F=6F 1E50=4F
   1E51=6F 1E52=4F 1E53=6F 1E54=50 1E55=70 1E56=50 1E57=70 1E58=52 1E59=72 1E5A=52 1E5B=72
   1E5C=52 1E5D=72 1E5E=52 1E5F=72 1E60=53 1E61=73 1E62=53 1E63=73 1E64=53 1E65=73 1E66=53
   1E67=73 1E68=53 1E69=73 1E6A=54 1E6B=74 1E6C=54 1E6D=74 1E6E=54 1E6F=74 1E70=54 1E71=74
   1E72=55 1E73=75 1E74=55 1E75=75 1E76=55 1E77=75 1E78=55 1E79=75 1E7A=55 1E7B=75 1E7C=56
   1E7D=76 1E7E=56 1E7F=76 1E80=57 1E81=77 1E82=57 1E83=77 1E84=57 1E85=77 1E86=57 1E87=77
   1E88=57 1E89=77 1E8A=58 1E8B=78 1E8C=58 1E8D=78 1E8E=59 1E8F=79 1E90=5A 1E91=7A 1E92=5A
   1E93=7A 1E94=5A 1E95=7A 1E96=68 1E97=74 1E98=77 1E99=79 1E9B=17F 1EA0=41 1EA1=61 1EA2=41
   1EA3=61 1EA4=41 1EA5=61 1EA6=41 1EA7=61 1EA8=41 1EA9=61 1EAA=41 1EAB=61 1EAC=41 1EAD=61
   1EAE=41 1EAF=61 1EB0=41 1EB1=61 1EB2=41 1EB3=61 1EB4=41 1EB5=61 1EB6=41 1EB7=61 1EB8=45
   1EB9=65 1EBA=45 1EBB=65 1EBC=45 1EBD=65 1EBE=45 1EBF=65 1EC0=45 1EC1=65 1EC2=45 1EC3=65
   1EC4=45 1EC5=65 1EC6=45 1EC7=65 1EC8=49 1EC9=69 1ECA=49 1ECB=69 1ECC=4F 1ECD=6F 1ECE=4F
   1ECF=6F 1ED0=4F 1ED1=6F 1ED2=4F 1ED3=6F 1ED4=4F 1ED5=6F 1ED6=4F 1ED7=6F 1ED8=4F 1ED9=6F
   1EDA=4F 1EDB=6F 1EDC=4F 1EDD=6F 1EDE=4F 1EDF=6F 1EE0=4F 1EE1=6F 1EE2=4F 1EE3=6F 1EE4=55
   1EE5=75 1EE6=55 1EE7=75 1EE8=55 1EE9=75 1EEA=55 1EEB=75 1EEC=55 1EED=75 1EEE=55 1EEF=75
   1EF0=55 1EF1=75 1EF2=59 1EF3=79 1EF4=59 1EF5=79 1EF6=59 1EF7=79 1EF8=59 1EF9=79 1F00-1F07=3B1
   1F08-1F0F=391 1F10-1F15=3B5 1F18-1F1D=395 1F20-1F27=3B7 1F28-1F2F=397 1F30-1F37=3B9
   1F38-1F3F=399 1F40-1F45=3BF 1F48-1F4D=39F 1F50-1F57=3C5 1F59=3A5 1F5B=3A5 1F5D=3A5 1F5F=3A5
   1F60-1F67=3C9 1F68-1F6F=3A9 1F70-1F71=3B1 1F72-1F73=3B5 1F74-1F75=3B7 1F76-1F77=3B9
   1F78-1F79=3BF 1F7A-1F7B=3C5 1F7C-1F7D=3C9 1F80-1F87=3B1 1F88-1F8F=391 1F90-1F97=3B7
   1F98-1F9F=397 1FA0-1FA7=3C9 1FA8-1FAF=3A9 1FB0-1FB4=3B1 1FB6-1FB7=3B1 1FB8-1FBC=391 1FBE=3B9
   1FC1=A8 1FC2-1FC4=3B7 1FC6-1FC7=3B7 1FC8-1FC9=395 1FCA-1FCC=397 1FCD-1FCF=1FBF 1FD0-1FD3=3B9
   1FD6-1FD7=3B9 1FD8-1FDB=399 1FDD-1FDF=1FFE 1FE0-1FE3=3C5 1FE4-1FE5=3C1 1FE6-1FE7=3C5
   1FE8-1FEB=3A5 1FEC=3A1 1FED-1FEE=A8 1FEF=60 1FF2-1FF4=3C9 1FF6-1FF7=3C9 1FF8-1FF9=39F
   1FFA-1FFC=3A9 1FFD=B4 2000=2002 2001=2003 2126=3A9 212A=4B 212B=41 219A=2190 219B=2192
   21AE=2194 21CD=21D0 21CE=21D4 21CF=21D2 2204=2203 2209=2208 220C=220B 2224=2223 2226=2225
   2241=223C 2244=2243 2247=2245 2249=2248 2260=3D 2262=2261 226D=224D 226E=3C 226F=3E 2270=2264
   2271=2265 2274=2272 2275=2273 2278=2276 2279=2277 2280=227A 2281=227B 2284=2282 2285=2283
   2288=2286 2289=2287 22AC=22A2 22AD=22A8 22AE=22A9 22AF=22AB 22E0=227C 22E1=227D 22E2=2291
   22E3=2292 22EA=22B2 22EB=22B3 22EC=22B4 22ED=22B5 2329=3008 232A=3009 2ADC=2ADD 304C=304B
   304E=304D 3050=304F 3052=3051 3054=3053 3056=3055 3058=3057 305A=3059 305C=305B 305E=305D
   3060=305F 3062=3061 3065=3064 3067=3066 3069=3068 3070-3071=306F 3073-3074=3072 3076-3077=3075
   3079-307A=3078 307C-307D=307B 3094=3046 309E=309D 30AC=30AB 30AE=30AD 30B0=30AF 30B2=30B1
   30B4=30B3 30B6=30B5 30B8=30B7 30BA=30B9 30BC=30BB 30BE=30BD 30C0=30BF 30C2=30C1 30C5=30C4
   30C7=30C6 30C9=30C8 30D0-30D1=30CF 30D3-30D4=30D2 30D6-30D7=30D5 30D9-30DA=30D8 30DC-30DD=30DB
   30F4=30A6 30F7=30EF 30F8=30F0 30F9=30F1 30FA=30F2 30FE=30FD F900=8C48 F901=66F4 F902=8ECA
   F903=8CC8 F904=6ED1 F905=4E32 F906=53E5 F907-F908=9F9C F909=5951 F90A=91D1 F90B=5587 F90C=5948
   F90D=61F6 F90E=7669 F90F=7F85 F910=863F F911=87BA F912=88F8 F913=908F F914=6A02 F915=6D1B
   F916=70D9 F917=73DE F918=843D F919=916A F91A=99F1 F91B=4E82 F91C=5375 F91D=6B04 F91E=721B
   F91F=862D F920=9E1E F921=5D50 F922=6FEB F923=85CD F924=8964 F925=62C9 F926=81D8 F927=881F
   F928=5ECA F929=6717 F92A=6D6A F92B=72FC F92C=90CE F92D=4F86 F92E=51B7 F92F=52DE F930=64C4
   F931=6AD3 F932=7210 F933=76E7 F934=8001 F935=8606 F936=865C F937=8DEF F938=9732 F939=9B6F
   F93A=9DFA F93B=788C F93C=797F F93D=7DA0 F93E=83C9 F93F=9304 F940=9E7F F941=8AD6 F942=58DF
   F943=5F04 F944=7C60 F945=807E F946=7262 F947=78CA F948=8CC2 F949=96F7 F94A=58D8 F94B=5C62
   F94C=6A13 F94D=6DDA F94E=6F0F F94F=7D2F F950=7E37 F951=964B F952=52D2 F953=808B F954=51DC
   F955=51CC F956=7A1C F957=7DBE F958=83F1 F959=9675 F95A=8B80 F95B=62CF F95C=6A02 F95D=8AFE
   F95E=4E39 F95F=5BE7 F960=6012 F961=7387 F962=7570 F963=5317 F964=78FB F965=4FBF F966=5FA9
   F967=4E0D F968=6CCC F969=6578 F96A=7D22 F96B=53C3 F96C=585E F96D=7701 F96E=8449 F96F=8AAA
   F970=6BBA F971=8FB0 F972=6C88 F973=62FE F974=82E5 F975=63A0 F976=7565 F977=4EAE F978=5169
   F979=51C9 F97A=6881 F97B=7CE7 F97C=826F F97D=8AD2 F97E=91CF F97F=52F5 F980=5442 F981=5973
   F982=5EEC F983=65C5 F984=6FFE F985=792A F986=95AD F987=9A6A F988=9E97 F989=9ECE F98A=529B
   F98B=66C6 F98C=6B77 F98D=8F62 F98E=5E74 F98F=6190 F990=6200 F991=649A F992=6F23 F993=7149
   F994=7489 F995=79CA F996=7DF4 F997=806F F998=8F26 F999=84EE F99A=9023 F99B=934A F99C=5217
   F99D=52A3 F99E=54BD F99F=70C8 F9A0=88C2 F9A1=8AAA F9A2=5EC9 F9A3=5FF5 F9A4=637B F9A5=6BAE
   F9A6=7C3E F9A7=7375 F9A8=4EE4 F9A9=56F9 F9AA=5BE7 F9AB=5DBA F9AC=601C F9AD=73B2 F9AE=7469
   F9AF=7F9A F9B0=8046 F9B1=9234 F9B2=96F6 F9B3=9748 F9B4=9818 F9B5=4F8B F9B6=79AE F9B7=91B4
   F9B8=96B8 F9B9=60E1 F9BA=4E86 F9BB=50DA F9BC=5BEE F9BD=5C3F F9BE=6599 F9BF=6A02 F9C0=71CE
   F9C1=7642 F9C2=84FC F9C3=907C F9C4=9F8D F9C5=6688 F9C6=962E F9C7=5289 F9C8=677B F9C9=67F3
   F9CA=6D41 F9CB=6E9C F9CC=7409 F9CD=7559 F9CE=786B F9CF=7D10 F9D0=985E F9D1=516D F9D2=622E
   F9D3=9678 F9D4=502B F9D5=5D19 F9D6=6DEA F9D7=8F2A F9D8=5F8B F9D9=6144 F9DA=6817 F9DB=7387
   F9DC=9686 F9DD=5229 F9DE=540F F9DF=5C65 F9E0=6613 F9E1=674E F9E2=68A8 F9E3=6CE5 F9E4=7406
   F9E5=75E2 F9E6=7F79 F9E7=88CF F9E8=88E1 F9E9=91CC F9EA=96E2 F9EB=533F F9EC=6EBA F9ED=541D
   F9EE=71D0 F9EF=7498 F9F0=85FA F9F1=96A3 F9F2=9C57 F9F3=9E9F F9F4=6797 F9F5=6DCB F9F6=81E8
   F9F7=7ACB F9F8=7B20 F9F9=7C92 F9FA=72C0 F9FB=7099 F9FC=8B58 F9FD=4EC0 F9FE=8336 F9FF=523A
   FA00=5207 FA01=5EA6 FA02=62D3 FA03=7CD6 FA04=5B85 FA05=6D1E FA06=66B4 FA07=8F3B FA08=884C
   FA09=964D FA0A=898B FA0B=5ED3 FA0C=5140 FA0D=55C0 FA10=585A FA12=6674 FA15=51DE FA16=732A
   FA17=76CA FA18=793C FA19=795E FA1A=7965 FA1B=798F FA1C=9756 FA1D=7CBE FA1E=7FBD FA20=8612
   FA22=8AF8 FA25=9038 FA26=90FD FA2A=98EF FA2B=98FC FA2C=9928 FA2D=9DB4 FA2E=90DE FA2F=96B7
   FA30=4FAE FA31=50E7 FA32=514D FA33=52C9 FA34=52E4 FA35=5351 FA36=559D FA37=5606 FA38=5668
   FA39=5840 FA3A=58A8 FA3B=5C64 FA3C=5C6E FA3D=6094 FA3E=6168 FA3F=618E FA40=61F2 FA41=654F
   FA42=65E2 FA43=6691 FA44=6885 FA45=6D77 FA46=6E1A FA47=6F22 FA48=716E FA49=722B FA4A=7422
   FA4B=7891 FA4C=793E FA4D=7949 FA4E=7948 FA4F=7950 FA50=7956 FA51=795D FA52=798D FA53=798E
   FA54=7A40 FA55=7A81 FA56=7BC0 FA57=7DF4 FA58=7E09 FA59=7E41 FA5A=7F72 FA5B=8005 FA5C=81ED
   FA5D-FA5E=8279 FA5F=8457 FA60=8910 FA61=8996 FA62=8B01 FA63=8B39 FA64=8CD3 FA65=8D08 FA66=8FB6
   FA67=9038 FA68=96E3 FA69=97FF FA6A=983B FA6B=6075 FA6C=242EE FA6D=8218 FA70=4E26 FA71=51B5
   FA72=5168 FA73=4F80 FA74=5145 FA75=5180 FA76=52C7 FA77=52FA FA78=559D FA79=5555 FA7A=5599
   FA7B=55E2 FA7C=585A FA7D=58B3 FA7E=5944 FA7F=5954 FA80=5A62 FA81=5B28 FA82=5ED2 FA83=5ED9
   FA84=5F69 FA85=5FAD FA86=60D8 FA87=614E FA88=6108 FA89=618E FA8A=6160 FA8B=61F2 FA8C=6234
   FA8D=63C4 FA8E=641C FA8F=6452 FA90=6556 FA91=6674 FA92=6717 FA93=671B FA94=6756 FA95=6B79
   FA96=6BBA FA97=6D41 FA98=6EDB FA99=6ECB FA9A=6F22 FA9B=701E FA9C=716E FA9D=77A7 FA9E=7235
   FA9F=72AF FAA0=732A FAA1=7471 FAA2=7506 FAA3=753B FAA4=761D FAA5=761F FAA6=76CA FAA7=76DB
   FAA8=76F4 FAA9=774A FAAA=7740 FAAB=78CC FAAC=7AB1 FAAD=7BC0 FAAE=7C7B FAAF=7D5B FAB0=7DF4
   FAB1=7F3E FAB2=8005 FAB3=8352 FAB4=83EF FAB5=8779 FAB6=8941 FAB7=8986 FAB8=8996 FAB9=8ABF
   FABA=8AF8 FABB=8ACB FABC=8B01 FABD=8AFE FABE=8AED FABF=8B39 FAC0=8B8A FAC1=8D08 FAC2=8F38
   FAC3=9072 FAC4=9199 FAC5=9276 FAC6=967C FAC7=96E3 FAC8=9756 FAC9=97DB FACA=97FF FACB=980B
   FACC=983B FACD=9B12 FACE=9F9C FACF=2284A FAD0=22844 FAD1=233D5 FAD2=3B9D FAD3=4018 FAD4=4039
   FAD5=25249 FAD6=25CD0 FAD7=27ED3 FAD8=9F43 FAD9=9F8E FB1D=5D9 FB1F=5F2 FB2A-FB2D=5E9
   FB2E-FB30=5D0 FB31=5D1 FB32=5D2 FB33=5D3 FB34=5D4 FB35=5D5 FB36=5D6 FB38=5D8 FB39=5D9 FB3A=5DA
   FB3B=5DB FB3C=5DC FB3E=5DE FB40=5E0 FB41=5E1 FB43=5E3 FB44=5E4 FB46=5E6 FB47=5E7 FB48=5E8
   FB49=5E9 FB4A=5EA FB4B=5D5 FB4C=5D1 FB4D=5DB FB4E=5E4 105C9=105D2 105E4=105DA 1109A=11099
   1109C=1109B 110AB=110A5 11383=11382 11385=11384 1138E=1138B 11391=11390 16D68=16D67,16D67
   16D69=16D63,16D67 16D6A=16D63,16D67,16D67 1D15E=1D157 1D15F-1D164=1D158 1D1BB=1D1B9
   1D1BC=1D1BA 1D1BD=1D1B9 1D1BE=1D1BA 1D1BF=1D1B9 1D1C0=1D1BA 2F800=4E3D 2F801=4E38 2F802=4E41
   2F803=20122 2F804=4F60 2F805=4FAE 2F806=4FBB 2F807=5002 2F808=507A 2F809=5099 2F80A=50E7
   2F80B=50CF 2F80C=349E 2F80D=2063A 2F80E=514D 2F80F=5154 2F810=5164 2F811=5177 2F812=2051C
   2F813=34B9 2F814=5167 2F815=518D 2F816=2054B 2F817=5197 2F818=51A4 2F819=4ECC 2F81A=51AC
   2F81B=51B5 2F81C=291DF 2F81D=51F5 2F81E=5203 2F81F=34DF 2F820=523B 2F821=5246 2F822=5272
   2F823=5277 2F824=3515 2F825=52C7 2F826=52C9 2F827=52E4 2F828=52FA 2F829=5305 2F82A=5306
   2F82B=5317 2F82C=5349 2F82D=5351 2F82E=535A 2F82F=5373 2F830=537D 2F831-2F833=537F 2F834=20A2C
   2F835=7070 2F836=53CA 2F837=53DF 2F838=20B63 2F839=53EB 2F83A=53F1 2F83B=5406 2F83C=549E
   2F83D=5438 2F83E=5448 2F83F=5468 2F840=54A2 2F841=54F6 2F842=5510 2F843=5553 2F844=5563
   2F845-2F846=5584 2F847=5599 2F848=55AB 2F849=55B3 2F84A=55C2 2F84B=5716 2F84C=5606 2F84D=5717
   2F84E=5651 2F84F=5674 2F850=5207 2F851=58EE 2F852=57CE 2F853=57F4 2F854=580D 2F855=578B
   2F856=5832 2F857=5831 2F858=58AC 2F859=214E4 2F85A=58F2 2F85B=58F7 2F85C=5906 2F85D=591A
   2F85E=5922 2F85F=5962 2F860=216A8 2F861=216EA 2F862=59EC 2F863=5A1B 2F864=5A27 2F865=59D8
   2F866=5A66 2F867=36EE 2F868=36FC 2F869=5B08 2F86A-2F86B=5B3E 2F86C=219C8 2F86D=5BC3 2F86E=5BD8
   2F86F=5BE7 2F870=5BF3 2F871=21B18 2F872=5BFF 2F873=5C06 2F874=5F53 2F875=5C22 2F876=3781
   2F877=5C60 2F878=5C6E 2F879=5CC0 2F87A=5C8D 2F87B=21DE4 2F87C=5D43 2F87D=21DE6 2F87E=5D6E
   2F87F=5D6B 2F880=5D7C 2F881=5DE1 2F882=5DE2 2F883=382F 2F884=5DFD 2F885=5E28 2F886=5E3D
   2F887=5E69 2F888=3862 2F889=22183 2F88A=387C 2F88B=5EB0 2F88C=5EB3 2F88D=5EB6 2F88E=5ECA
   2F88F=2A392 2F890=5EFE 2F891-2F892=22331 2F893=8201 2F894-2F895=5F22 2F896=38C7 2F897=232B8
   2F898=261DA 2F899=5F62 2F89A=5F6B 2F89B=38E3 2F89C=5F9A 2F89D=5FCD 2F89E=5FD7 2F89F=5FF9
   2F8A0=6081 2F8A1=393A 2F8A2=391C 2F8A3=6094 2F8A4=226D4 2F8A5=60C7 2F8A6=6148 2F8A7=614C
   2F8A8=614E 2F8A9=614C 2F8AA=617A 2F8AB=618E 2F8AC=61B2 2F8AD=61A4 2F8AE=61AF 2F8AF=61DE
   2F8B0=61F2 2F8B1=61F6 2F8B2=6210 2F8B3=621B 2F8B4=625D 2F8B5=62B1 2F8B6=62D4 2F8B7=6350
   2F8B8=22B0C 2F8B9=633D 2F8BA=62FC 2F8BB=6368 2F8BC=6383 2F8BD=63E4 2F8BE=22BF1 2F8BF=6422
   2F8C0=63C5 2F8C1=63A9 2F8C2=3A2E 2F8C3=6469 2F8C4=647E 2F8C5=649D 2F8C6=6477 2F8C7=3A6C
   2F8C8=654F 2F8C9=656C 2F8CA=2300A 2F8CB=65E3 2F8CC=66F8 2F8CD=6649 2F8CE=3B19 2F8CF=6691
   2F8D0=3B08 2F8D1=3AE4 2F8D2=5192 2F8D3=5195 2F8D4=6700 2F8D5=669C 2F8D6=80AD 2F8D7=43D9
   2F8D8=6717 2F8D9=671B 2F8DA=6721 2F8DB=675E 2F8DC=6753 2F8DD=233C3 2F8DE=3B49 2F8DF=67FA
   2F8E0=6785 2F8E1=6852 2F8E2=6885 2F8E3=2346D 2F8E4=688E 2F8E5=681F 2F8E6=6914 2F8E7=3B9D
   2F8E8=6942 2F8E9=69A3 2F8EA=69EA 2F8EB=6AA8 2F8EC=236A3 2F8ED=6ADB 2F8EE=3C18 2F8EF=6B21
   2F8F0=238A7 2F8F1=6B54 2F8F2=3C4E 2F8F3=6B72 2F8F4=6B9F 2F8F5=6BBA 2F8F6=6BBB 2F8F7=23A8D
   2F8F8=21D0B 2F8F9=23AFA 2F8FA=6C4E 2F8FB=23CBC 2F8FC=6CBF 2F8FD=6CCD 2F8FE=6C67 2F8FF=6D16
   2F900=6D3E 2F901=6D77 2F902=6D41 2F903=6D69 2F904=6D78 2F905=6D85 2F906=23D1E 2F907=6D34
   2F908=6E2F 2F909=6E6E 2F90A=3D33 2F90B=6ECB 2F90C=6EC7 2F90D=23ED1 2F90E=6DF9 2F90F=6F6E
   2F910=23F5E 2F911=23F8E 2F912=6FC6 2F913=7039 2F914=701E 2F915=701B 2F916=3D96 2F917=704A
   2F918=707D 2F919=7077 2F91A=70AD 2F91B=20525 2F91C=7145 2F91D=24263 2F91E=719C 2F91F=243AB
   2F920=7228 2F921=7235 2F922=7250 2F923=24608 2F924=7280 2F925=7295 2F926=24735 2F927=24814
   2F928=737A 2F929=738B 2F92A=3EAC 2F92B=73A5 2F92C-2F92D=3EB8 2F92E=7447 2F92F=745C 2F930=7471
   2F931=7485 2F932=74CA 2F933=3F1B 2F934=7524 2F935=24C36 2F936=753E 2F937=24C92 2F938=7570
   2F939=2219F 2F93A=7610 2F93B=24FA1 2F93C=24FB8 2F93D=25044 2F93E=3FFC 2F93F=4008 2F940=76F4
   2F941=250F3 2F942=250F2 2F943=25119 2F944=25133 2F945=771E 2F946-2F947=771F 2F948=774A
   2F949=4039 2F94A=778B 2F94B=4046 2F94C=4096 2F94D=2541D 2F94E=784E 2F94F=788C 2F950=78CC
   2F951=40E3 2F952=25626 2F953=7956 2F954=2569A 2F955=256C5 2F956=798F 2F957=79EB 2F958=412F
   2F959=7A40 2F95A=7A4A 2F95B=7A4F 2F95C=2597C 2F95D-2F95E=25AA7 2F95F=7AEE 2F960=4202
   2F961=25BAB 2F962=7BC6 2F963=7BC9 2F964=4227 2F965=25C80 2F966=7CD2 2F967=42A0 2F968=7CE8
   2F969=7CE3 2F96A=7D00 2F96B=25F86 2F96C=7D63 2F96D=4301 2F96E=7DC7 2F96F=7E02 2F970=7E45
   2F971=4334 2F972=26228 2F973=26247 2F974=4359 2F975=262D9 2F976=7F7A 2F977=2633E 2F978=7F95
   2F979=7FFA 2F97A=8005 2F97B=264DA 2F97C=26523 2F97D=8060 2F97E=265A8 2F97F=8070 2F980=2335F
   2F981=43D5 2F982=80B2 2F983=8103 2F984=440B 2F985=813E 2F986=5AB5 2F987=267A7 2F988=267B5
   2F989=23393 2F98A=2339C 2F98B=8201 2F98C=8204 2F98D=8F9E 2F98E=446B 2F98F=8291 2F990=828B
   2F991=829D 2F992=52B3 2F993=82B1 2F994=82B3 2F995=82BD 2F996=82E6 2F997=26B3C 2F998=82E5
   2F999=831D 2F99A=8363 2F99B=83AD 2F99C=8323 2F99D=83BD 2F99E=83E7 2F99F=8457 2F9A0=8353
   2F9A1=83CA 2F9A2=83CC 2F9A3=83DC 2F9A4=26C36 2F9A5=26D6B 2F9A6=26CD5 2F9A7=452B 2F9A8=84F1
   2F9A9=84F3 2F9AA=8516 2F9AB=273CA 2F9AC=8564 2F9AD=26F2C 2F9AE=455D 2F9AF=4561 2F9B0=26FB1
   2F9B1=270D2 2F9B2=456B 2F9B3=8650 2F9B4=865C 2F9B5=8667 2F9B6=8669 2F9B7=86A9 2F9B8=8688
   2F9B9=870E 2F9BA=86E2 2F9BB=8779 2F9BC=8728 2F9BD=876B 2F9BE=8786 2F9BF=45D7 2F9C0=87E1
   2F9C1=8801 2F9C2=45F9 2F9C3=8860 2F9C4=8863 2F9C5=27667 2F9C6=88D7 2F9C7=88DE 2F9C8=4635
   2F9C9=88FA 2F9CA=34BB 2F9CB=278AE 2F9CC=27966 2F9CD=46BE 2F9CE=46C7 2F9CF=8AA0 2F9D0=8AED
   2F9D1=8B8A 2F9D2=8C55 2F9D3=27CA8 2F9D4=8CAB 2F9D5=8CC1 2F9D6=8D1B 2F9D7=8D77 2F9D8=27F2F
   2F9D9=20804 2F9DA=8DCB 2F9DB=8DBC 2F9DC=8DF0 2F9DD=208DE 2F9DE=8ED4 2F9DF=8F38 2F9E0=285D2
   2F9E1=285ED 2F9E2=9094 2F9E3=90F1 2F9E4=9111 2F9E5=2872E 2F9E6=911B 2F9E7=9238 2F9E8=92D7
   2F9E9=92D8 2F9EA=927C 2F9EB=93F9 2F9EC=9415 2F9ED=28BFA 2F9EE=958B 2F9EF=4995 2F9F0=95B7
   2F9F1=28D77 2F9F2=49E6 2F9F3=96C3 2F9F4=5DB2 2F9F5=9723 2F9F6=29145 2F9F7=2921A 2F9F8=4A6E
   2F9F9=4A76 2F9FA=97E0 2F9FB=2940A 2F9FC=4AB2 2F9FD=29496 2F9FE-2F9FF=980B 2FA00=9829
   2FA01=295B6 2FA02=98E2 2FA03=4B33 2FA04=9929 2FA05=99A7 2FA06=99C2 2FA07=99FE 2FA08=4BCE
   2FA09=29B30 2FA0A=9B12 2FA0B=9C40 2FA0C=9CFD 2FA0D=4CCE 2FA0E=4CED 2FA0F=9D67 2FA10=2A0CE
   2FA11=4CF8 2FA12=2A105 2FA13=2A20E 2FA14=2A291 2FA15=9EBB 2FA16=4D56 2FA17=9EF9 2FA18=9EFE
   2FA19=9F05 2FA1A=9F0F 2FA1B=9F16 2FA1C=9F3B 2FA1D=2A600"

end TabStop.Table
